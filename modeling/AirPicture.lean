import AirPicture.Relay
import AirPicture.Cache.Crowd
import AirPicture.Cache.Surface
import AirPicture.Configuration.Layers
import AirPicture.Proofs.Cache.Separation
import AirPicture.Proofs.Cache.Numbering
import AirPicture.Proofs.Cache.Clearing
import AirPicture.Proofs.Cache.Hiding
import AirPicture.Proofs.Cache.Rest
import AirPicture.Proofs.Cache.ConcurrentReaders
import AirPicture.Proofs.Cache.Traffic
import AirPicture.Proofs.Cache.Mishaps
import AirPicture.Proofs.Cache.Features
import AirPicture.Proofs.Cache.Sweep
import AirPicture.Proofs.Cache.Healing
import AirPicture.Proofs.Cache.Exchange
import AirPicture.Proofs.Cache.Retries
import AirPicture.Proofs.Configuration.Lives
import AirPicture.Proofs.Feed.Accounting
import AirPicture.Proofs.Feed.Deliveries
import AirPicture.Proofs.Feed.Layout
import AirPicture.Proofs.Feed.Callsigns
import AirPicture.Proofs.Feed.Detection
import AirPicture.Proofs.Feed.Meridian
import AirPicture.Proofs.Feed.Candidates
import AirPicture.Proofs.Feed.Entries
import AirPicture.Proofs.Feed.Payload
import AirPicture.Proofs.Wire.RoundTrip
import AirPicture.Proofs.Relay

import Aesmsg.Crypto.RoundTrip
import Aesmsg.Crypto.Seal
import Aesmsg.Crypto.Binding
import Aesmsg.Store.MemoryLink
import Aesmsg.Store.Operations
import Aesmsg.Store.Invariant
import Aesmsg.Store.Pg
import Aesmsg.Store.PgLink
import Aesmsg.Store.Agree
import Aesmsg.Api.Http
import Aesmsg.Lib.Threads
import Aesmsg.Server.Trace
import Aesmsg.Server.Ledger
import Aesmsg.Server.Memory
import Aesmsg.Server.MemorySteps
import Aesmsg.Server.Postgres
import Aesmsg.Server.Protocol
import Aesmsg.Server.PostgresSteps
import Aesmsg.Server.Opens
import Aesmsg.Server.Retention
import Aesmsg.Server.Creates
import Aesmsg.Server.Delivery
import Aesmsg.Identity.Bundle
import Aesmsg.Identity.Crypto
import Aesmsg.Identity.Mobile
import Aesmsg.Identity.MobileSteps
import Aesmsg.Identity.MobileKeys
import Aesmsg.Identity.MobileLock
import Aesmsg.Identity.MobileRotation
import Aesmsg.Identity.Web
import Aesmsg.Identity.WebKeys
import Aesmsg.Identity.WebWipe
import Aesmsg.Identity.WebLock
import Aesmsg.Identity.WebSession
import Aesmsg.Client.Transport
import Aesmsg.Reader.Classify
import Aesmsg.Server.Opening
import Aesmsg.Reader.Attempts
import Aesmsg.Store.Digest
import Aesmsg.Store.Revocation
import Aesmsg.Api.Handlers
import Aesmsg.Api.Opacity
import Aesmsg.Client.Base64
import Aesmsg.Api.Create
import Aesmsg.Client.CreateAndSeal
import Aesmsg.Reader.Decrypt
import Aesmsg.Server.Contents
import Aesmsg.Reader.ReadBack
import Aesmsg.Client.Compose
import Aesmsg.Contacts.Effect
import Aesmsg.Contacts.Directory
import Aesmsg.Lib.Cell
import Aesmsg.Links.SentLinks
import Aesmsg.Contacts.Verified
import Aesmsg.Links.Answers
import Aesmsg.Links.Revoked
import Aesmsg.Links.Agreement
import Aesmsg.Lib.Clients
import Aesmsg.Server.MemoryTokens
import Aesmsg.Server.PostgresTokens
import Aesmsg.Links.Revoke
import Aesmsg.Links.Dead
import Aesmsg.Store.Migrate
import Aesmsg.Storage.EncryptedStore
import Aesmsg.Storage.Wipe
import Aesmsg.Storage.Race
import Aesmsg.Settings.RevokeThenWipe
import Aesmsg.Settings.WipeScreens
import Aesmsg.Settings.Stranded
import Aesmsg.Crypto.Padding
import Aesmsg.Crypto.Wrap
import Aesmsg.Crypto.Unwrap
import Aesmsg.Crypto.Canonical
import Aesmsg.Client.Codecs
import Aesmsg.Reader.KeyFallback
import Aesmsg.Lib.Machine
import Aesmsg.Reader.OpenCoordinator
import Aesmsg.Identity.IdleLockTimer
import Aesmsg.Settings.RevokeAll
import Aesmsg.Worker.Scheduler
import Aesmsg.Lib.FixedWindow
import Aesmsg.Store.RateLimit
import Aesmsg.Reader.AttachmentCache
import Aesmsg.Contacts.Recovery
import Aesmsg.Lib.Binary64
import Aesmsg.Lib.NumberText
import Aesmsg.Lib.JsonText
import Aesmsg.Identity.RetiredKeys
import Aesmsg.Api.Boot
import Aesmsg.Api.Edge
import Aesmsg.Contacts.Import
import Aesmsg.Lib.Simulation
import Aesmsg.Lib.Urlencoded
import Aesmsg.Links.Url
import Aesmsg.Reader.Flow
import Aesmsg.Reader.WebFlow
import Aesmsg.Worker.Process
import Aesmsg.Api.Metrics
import Aesmsg.Api.Scrape
import Aesmsg.Lib.Persisted
import Aesmsg.Settings.Format
import Aesmsg.Settings.Provider

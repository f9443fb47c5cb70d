import DonationLedger.Host.App
import DonationLedger.Settings.Database
import DonationLedger.Slot.Edit
import DonationLedger.Store.Shelf
import DonationLedger.Proofs.Number.DecimalText
import DonationLedger.Proofs.Json.Token
import DonationLedger.Proofs.Json.RoundTrip
import DonationLedger.Proofs.Shape.Lawful
import DonationLedger.Proofs.Store.Page
import DonationLedger.Proofs.Store.Slot
import DonationLedger.Proofs.Store.Taken
import DonationLedger.Proofs.Store.Namespace
import DonationLedger.Proofs.Shape.Declared
import DonationLedger.Proofs.Coin.Merge
import DonationLedger.Proofs.Coin.Share
import DonationLedger.Proofs.Number.Value
import DonationLedger.Proofs.Coin.Portion
import DonationLedger.Proofs.Contract.Command
import DonationLedger.Proofs.Contract.Handlers
import DonationLedger.Proofs.Contract.Donation
import DonationLedger.Proofs.Contract.Charter
import DonationLedger.Proofs.Engine.Transaction
import DonationLedger.Proofs.Engine.Period
import DonationLedger.Proofs.Engine.Counter
import DonationLedger.Proofs.Migration.Chain
import DonationLedger.Proofs.Migration.Dispatch
import DonationLedger.Proofs.Host.Run
import DonationLedger.Proofs.Host.Opening
import DonationLedger.Proofs.Host.Keyspace
import DonationLedger.Proofs.Host.Straight
import DonationLedger.Proofs.Host.Transparency
import DonationLedger.Proofs.Host.Keeps
import DonationLedger.Proofs.Host.Supply
import DonationLedger.Proofs.Host.Operation
import DonationLedger.Proofs.Host.Conservation
import DonationLedger.Proofs.Host.Upholds
import DonationLedger.Proofs.Host.Contracts
import DonationLedger.Proofs.Host.Course
import DonationLedger.Proofs.Host.Outflow
import DonationLedger.Proofs.Host.Cascade
import DonationLedger.Proofs.Store.Avoids
import DonationLedger.Proofs.Store.Layers
import DonationLedger.Proofs.Store.Stack
import DonationLedger.Proofs.Engine.Atomicity
import DonationLedger.Proofs.Migration.Applied
import DonationLedger.Proofs.Migration.Stepwise
import DonationLedger.Proofs.Migration.Renewal
import DonationLedger.Proofs.Migration.Repeat
import DonationLedger.Proofs.Host.Footprint
import DonationLedger.Proofs.Host.Frame
import DonationLedger.Proofs.Host.Provided
import DonationLedger.Proofs.Host.Queue
import DonationLedger.Proofs.Host.Funded
import DonationLedger.Proofs.Store.Within
import DonationLedger.Proofs.Host.Belongs
import DonationLedger.Proofs.Host.Register
import DonationLedger.Proofs.Host.Rejection
import DonationLedger.Proofs.Host.Local
import DonationLedger.Proofs.Host.Commute
import DonationLedger.Proofs.Migration.Created
import DonationLedger.Proofs.Migration.Search
import DonationLedger.Proofs.Migration.Validation
import DonationLedger.Proofs.Coin.Rounded
import DonationLedger.Proofs.Engine.Indifference
import DonationLedger.Proofs.Contract.Reread
import DonationLedger.Proofs.Migration.Status
import DonationLedger.Proofs.Contract.Spelling
import DonationLedger.Proofs.Engine.Vetted
import DonationLedger.Proofs.Host.Invariant
import DonationLedger.Proofs.Host.Vouched
import DonationLedger.Proofs.Contract.Payout
import DonationLedger.Proofs.Host.Withdrawal
import DonationLedger.Proofs.Host.Transfer
import DonationLedger.Proofs.Store.Refused
import DonationLedger.Proofs.Engine.Refused
import DonationLedger.Proofs.Shape.Entry
import DonationLedger.Proofs.Migration.Layout
import DonationLedger.Proofs.Coin.Canonical
import DonationLedger.Proofs.Migration.Label

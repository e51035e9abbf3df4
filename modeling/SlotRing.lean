import SlotRing.Transcript
import SlotRing.Transfer
import SlotRing.Padding.Layout
import SlotRing.Proofs.Ledger
import SlotRing.Proofs.Discipline
import SlotRing.Proofs.Slots
import SlotRing.Proofs.Deeds
import SlotRing.Proofs.Consuming
import SlotRing.Proofs.Producing
import SlotRing.Proofs.Accounts
import SlotRing.Proofs.Queue
import SlotRing.Proofs.Windows
import SlotRing.Proofs.Decisive
import SlotRing.Proofs.Turns
import SlotRing.Proofs.Linearization
import SlotRing.Proofs.Delivery
import SlotRing.Proofs.Lookup
import SlotRing.Proofs.Plain
import SlotRing.Proofs.Exclusion
import SlotRing.Proofs.Staleness
import SlotRing.Proofs.Progress
import SlotRing.Proofs.Provenance
import SlotRing.Proofs.Bounds
import SlotRing.Proofs.Checks
import SlotRing.Proofs.Builds
import SlotRing.Proofs.Refusals
import SlotRing.Proofs.Frames
import SlotRing.Proofs.Commuting
import SlotRing.Proofs.Observing
import SlotRing.Proofs.Renewal
import SlotRing.Proofs.Abandoned
import SlotRing.Proofs.Attending
import SlotRing.Proofs.Acting
import SlotRing.Proofs.Reloads
import SlotRing.Proofs.InPlace
import SlotRing.Proofs.Lives
import SlotRing.Proofs.Accepting
import SlotRing.Proofs.Nesting
import SlotRing.Proofs.Successors
import SlotRing.Proofs.Wording

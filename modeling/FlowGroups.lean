import FlowGroups.Main
import FlowGroups.Proofs.Session
import FlowGroups.Proofs.Outstanding
import FlowGroups.Proofs.Convergence
import FlowGroups.Proofs.Membership
import FlowGroups.Proofs.Independence
import FlowGroups.Proofs.Parking
import FlowGroups.Proofs.Deletion
import FlowGroups.Proofs.Resubmission
import FlowGroups.Proofs.Lineage
import FlowGroups.Proofs.Storage
import FlowGroups.Proofs.Dependencies
import FlowGroups.Proofs.Readiness
import FlowGroups.Proofs.Splitting
import FlowGroups.Proofs.Flooding
import FlowGroups.Proofs.Confluence
import FlowGroups.Proofs.Purging
import FlowGroups.Proofs.Deadlines
import FlowGroups.Proofs.PassThrough
import FlowGroups.Proofs.Draining
import FlowGroups.Proofs.Layout
import FlowGroups.Proofs.Tunnels
import FlowGroups.Proofs.Detaching
import FlowGroups.Proofs.Acceptance
import FlowGroups.Proofs.Timetable
import FlowGroups.Proofs.Upkeep
import FlowGroups.Proofs.Entries
import FlowGroups.Proofs.Framing

import Roster.Http.Server
import Roster.Interleaving
import Roster.PolicyServer.Client
import Roster.PolicyServer.Script
import Roster.Proofs.Gate
import Roster.Proofs.Atomic
import Roster.Proofs.Owner
import Roster.Proofs.Serial
import Roster.Proofs.Batch
import Roster.Proofs.Denial
import Roster.Proofs.Audience
import Roster.Proofs.Authentication
import Roster.Proofs.SameIdentities
import Roster.Proofs.Effect
import Roster.Proofs.Listing
import Roster.Proofs.Servable
import Roster.Proofs.Window
import Roster.Proofs.Links
import Roster.Proofs.Navigation
import Roster.Proofs.LinkText
import Roster.Proofs.Enumeration
import Roster.Proofs.Overflow
import Roster.Proofs.Page
import Roster.Proofs.PlainJson
import Roster.Proofs.PolicyDocument
import Roster.Proofs.MemberText
import Roster.Proofs.FirstStage
import Roster.Proofs.Client
import Roster.Proofs.Dialogue
import Roster.Proofs.Cancellation
import Roster.Proofs.Vacancy
import Roster.Proofs.ChangeRow
import Roster.Proofs.LinkRanges
import Roster.Proofs.Entitlement
import Roster.Proofs.Extraction

import DeskLink.Proofs.Transfer.Crash
import DeskLink.Proofs.Notes.OneSided
import DeskLink.Proofs.Notes.Snippets
import DeskLink.Proofs.Notes.Split
import DeskLink.Proofs.Notes.Later
import DeskLink.Proofs.Pairing.Agreement
import DeskLink.Proofs.Pairing.Qr
import DeskLink.Proofs.Session.Trust
import DeskLink.Proofs.Remote.Agreement
import DeskLink.Proofs.Access.Attempts
import DeskLink.Proofs.Session.Reader
import DeskLink.Proofs.Session.Features
import DeskLink.Proofs.Terminal.Revoked
import DeskLink.Proofs.Terminal.Unbroken
import DeskLink.Proofs.Vault.Saved
import DeskLink.Proofs.Config.Consents
import DeskLink.Proofs.Sending.Waiting
import DeskLink.Proofs.Clipboard.Agree
import DeskLink.Proofs.Sound.Shown
import DeskLink.Proofs.Pointer.LetsGo
import DeskLink.Proofs.Notes.Syncable
import DeskLink.Proofs.Lane.Grants
import DeskLink.Proofs.Transfer.Outgoing
import DeskLink.Proofs.Relay.Quota
import DeskLink.Proofs.Relay.Connections
import DeskLink.Proofs.Relay.Auths
import DeskLink.Proofs.Folders.Names
import DeskLink.Proofs.Folders.Scan
import DeskLink.Proofs.Session.Replay
import DeskLink.Proofs.Relay.Queues
import DeskLink.Proofs.Access.Unlock
import DeskLink.Proofs.Terminal.Wire
import DeskLink.Proofs.Terminal.SyncQuery
import DeskLink.Proofs.Contacts.Snapshots
import DeskLink.Proofs.Session.Signed
import DeskLink.Proofs.Folders.Packets
import DeskLink.Proofs.Calls.Hold
import DeskLink.Proofs.Access.WalkAway
import DeskLink.Proofs.Discovery.AddressBook
import DeskLink.Proofs.Channel.Events
import DeskLink.Proofs.Desk.Notifications
import DeskLink.Proofs.Discovery.Endpoints
import DeskLink.Proofs.Capture.Wifi
import DeskLink.Proofs.Contacts.Vcard
import DeskLink.Proofs.Desk.Dnd
import DeskLink.Proofs.RelayLink.Gate
import DeskLink.Proofs.Config.Identity
import DeskLink.Proofs.Config.Migration
import DeskLink.Proofs.Transfer.Progress
import DeskLink.Proofs.Remote.Portal

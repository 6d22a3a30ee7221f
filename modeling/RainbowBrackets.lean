import RainbowBrackets.Color.Json
import RainbowBrackets.Document
import RainbowBrackets.Proofs.Color
import RainbowBrackets.Proofs.Document.Resync
import RainbowBrackets.Proofs.Nesting.Depth
import RainbowBrackets.Proofs.Nesting.Ends
import RainbowBrackets.Proofs.Pairing.Partner
import RainbowBrackets.Proofs.Registry
import RainbowBrackets.Proofs.Scan
import RainbowBrackets.Proofs.Session.Announce
import RainbowBrackets.Proofs.Session.Openers
import RainbowBrackets.Proofs.Session.Paint
import RainbowBrackets.Proofs.Session.Refresh
import RainbowBrackets.Proofs.Session.Switch
import RainbowBrackets.Proofs.Session.Truthful
import RainbowBrackets.Proofs.Settings
import RainbowBrackets.Proofs.Tracker.Account
import RainbowBrackets.Proofs.Tracker.Dispatch
import RainbowBrackets.Proofs.Tracker.Operation
import RainbowBrackets.Proofs.Tracker.Slices
import RainbowBrackets.Registry
import RainbowBrackets.Settings.Storage
import RainbowBrackets.Tracker.Paint
import RainbowBrackets.Tracker.Tick
import RainbowBrackets.Json.Grammar

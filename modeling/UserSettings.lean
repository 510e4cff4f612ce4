import UserSettings.Success
import UserSettings.Frame
import UserSettings.Nested
import UserSettings.Validity
import UserSettings.Format
import UserSettings.Range
import UserSettings.Readers
import UserSettings.History
import UserSettings.Commands
import UserSettings.Moves
import UserSettings.Isolation
import UserSettings.LoadOrder
import UserSettings.Lifecycle
import UserSettings.Notices
import UserSettings.Iteration
import UserSettings.Reload
import UserSettings.Export
import UserSettings.Changed
import UserSettings.RoundTrip
import UserSettings.Bluetooth
import UserSettings.Strings
import UserSettings.WriteOnce
import UserSettings.Listing
import UserSettings.Decoding
import UserSettings.Addressing
import UserSettings.Restoring
import UserSettings.RestoreOne
import UserSettings.ExportValues
import UserSettings.Importing
import UserSettings.Numbers
import UserSettings.ImportOrder
import UserSettings.WrongStructure
import UserSettings.HexText
import UserSettings.Encoders
import UserSettings.Traversal
import UserSettings.Typing
import UserSettings.HexCodec
import UserSettings.StorageUse
import UserSettings.Mirror
import UserSettings.Firmware
import UserSettings.ShellListing
import UserSettings.ImportAgain
import UserSettings.Replicas
import UserSettings.Routes
import UserSettings.References
import UserSettings.Footprint
import UserSettings.Contract
import UserSettings.ExactSize
import UserSettings.Nesting
import UserSettings.Retries

import LiveSettings.Main
import LiveSettings.Session
import LiveSettings.Accessors.Derive
import LiveSettings.Proofs.Binary.Shortest
import LiveSettings.Proofs.Json.Rendering
import LiveSettings.Proofs.Files.Replacement
import LiveSettings.Proofs.Store.Document
import LiveSettings.Proofs.Store.Reopen
import LiveSettings.Proofs.Session.Observer
import LiveSettings.Proofs.Session.ReadBack
import LiveSettings.Proofs.Session.Runs
import LiveSettings.Proofs.Access.Documents
import LiveSettings.Proofs.Session.Repeat
import LiveSettings.Proofs.Access.ReadBack
import LiveSettings.Proofs.Accessors.Grouping
import LiveSettings.Proofs.Accessors.Sites
import LiveSettings.Proofs.Accessors.Units
import LiveSettings.Proofs.Event.Reentry
import LiveSettings.Proofs.Target.Declaration
import LiveSettings.Proofs.Accessors.FrontEnds
import LiveSettings.Proofs.Accessors.Sources
import LiveSettings.Proofs.Accessors.Reports
import LiveSettings.Proofs.Code.Names
import LiveSettings.Proofs.Accessors.Nesting
import LiveSettings.Proofs.Accessors.TypeNames
import LiveSettings.Proofs.Accessors.UnitReading
import LiveSettings.Proofs.Command.Output
import LiveSettings.Proofs.Command.Confinement
import LiveSettings.Proofs.Files.Ways
import LiveSettings.Proofs.Files.Directories
import LiveSettings.Proofs.Files.Grounded
import LiveSettings.Proofs.Store.Saving
import LiveSettings.Proofs.Event.Registry
import LiveSettings.Proofs.Store.Neighbours
import LiveSettings.Proofs.Value.Sameness
import LiveSettings.Proofs.Property.Markers
import LiveSettings.Proofs.Property.NativeTable
import LiveSettings.Proofs.Accessors.Collecting
import LiveSettings.Proofs.Accessors.Agreement
import LiveSettings.Proofs.Session.Reset
import LiveSettings.Proofs.Accessors.Problems
import LiveSettings.Proofs.Target.Bindings
import LiveSettings.Proofs.Target.Qualifying
import LiveSettings.Proofs.Target.Spellings
import LiveSettings.Proofs.Accessors.Globs
import LiveSettings.Proofs.Accessors.Shadowing
import LiveSettings.Proofs.Command.ModulePaths
import LiveSettings.Proofs.Accessors.UsableNames
import LiveSettings.Proofs.Target.Implements
import LiveSettings.Proofs.Accessors.Notification
import LiveSettings.Proofs.Accessors.Rearranging

import TypeCatalog.Attribute
import TypeCatalog.Call.Ancestry
import TypeCatalog.Call.Basic
import TypeCatalog.Call.Lookup
import TypeCatalog.Config
import TypeCatalog.Decimal.Shortest
import TypeCatalog.Error
import TypeCatalog.Gallery.Descriptions
import TypeCatalog.Gallery.Scripted
import TypeCatalog.Gallery.Shape
import TypeCatalog.Gallery.Written
import TypeCatalog.Handle
import TypeCatalog.Hash.Xxh64
import TypeCatalog.Image.Bytes
import TypeCatalog.Image.Decode
import TypeCatalog.Image.Export
import TypeCatalog.Image.Layout
import TypeCatalog.Image.Merge
import TypeCatalog.Image.Record
import TypeCatalog.Image.Slots
import TypeCatalog.Index
import TypeCatalog.Interner
import TypeCatalog.Literal
import TypeCatalog.Member.Callable
import TypeCatalog.Member.Part
import TypeCatalog.Member.Receiver
import TypeCatalog.ModuleId
import TypeCatalog.Numeric
import TypeCatalog.Overload.Diagnostics
import TypeCatalog.Overload.Rank
import TypeCatalog.Overload.Resolve
import TypeCatalog.Primitive
import TypeCatalog.Registry.Basic
import TypeCatalog.Registry.Functions
import TypeCatalog.Registry.Members
import TypeCatalog.Registry.Modules
import TypeCatalog.Registry.Types
import TypeCatalog.Registry.Verify
import TypeCatalog.Registry.View
import TypeCatalog.Row
import TypeCatalog.Script.CallRequest
import TypeCatalog.Script.ImageRequest
import TypeCatalog.Script.MemberRequest
import TypeCatalog.Script.ModuleRequest
import TypeCatalog.Script.NameStep
import TypeCatalog.Script.Operand
import TypeCatalog.Script.Pass
import TypeCatalog.Script.Reply
import TypeCatalog.Script.Run
import TypeCatalog.Script.Session
import TypeCatalog.Script.SharedStep
import TypeCatalog.Script.Step
import TypeCatalog.Script.TypeRequest
import TypeCatalog.Script.ValueRequest
import TypeCatalog.SlotTable
import TypeCatalog.Text.Blank
import TypeCatalog.Text.Hex
import TypeCatalog.Text.Printable
import TypeCatalog.Text.Quoted
import TypeCatalog.TypeHash
import TypeCatalog.Value
import TypeCatalog.Proofs.Interner
import TypeCatalog.Proofs.Members
import TypeCatalog.Proofs.SlotTable
import TypeCatalog.Proofs.Tables
import TypeCatalog.Proofs.Image.Decode
import TypeCatalog.Proofs.Merging
import TypeCatalog.Proofs.Operation
import TypeCatalog.Proofs.Catalog
import TypeCatalog.Proofs.Handles
import TypeCatalog.Proofs.Descriptions
import TypeCatalog.Proofs.Lookup
import TypeCatalog.Proofs.Image.Codec
import TypeCatalog.Proofs.Image.Layout
import TypeCatalog.Proofs.Image.Sections
import TypeCatalog.Proofs.Image.Reading
import TypeCatalog.Proofs.Image.Restoring
import TypeCatalog.Proofs.Exports
import TypeCatalog.Proofs.RoundTrip
import TypeCatalog.Proofs.Plays
import TypeCatalog.Proofs.Scripts
import TypeCatalog.Proofs.AllOrNothing
import TypeCatalog.Proofs.Bookkeeping
import TypeCatalog.Proofs.Pending
import TypeCatalog.Proofs.Declarations
import TypeCatalog.Proofs.Registrations
import TypeCatalog.Proofs.Conversions
import TypeCatalog.Proofs.Calls
import TypeCatalog.Proofs.Aliases
import TypeCatalog.Proofs.Overloads
import TypeCatalog.Proofs.Removal
import TypeCatalog.Proofs.Pinned
import TypeCatalog.Proofs.Rebuilding
import TypeCatalog.Proofs.Notes
import TypeCatalog.Proofs.SelfMerge
import TypeCatalog.Proofs.References
import TypeCatalog.Proofs.Entering
import TypeCatalog.Proofs.Declaring
import TypeCatalog.Proofs.Closure
import TypeCatalog.Proofs.Rollback
import TypeCatalog.Proofs.Refusals
import TypeCatalog.Proofs.BuiltIns
import TypeCatalog.Proofs.StoredNames
import TypeCatalog.Proofs.Staleness
import TypeCatalog.Proofs.Counts
import TypeCatalog.Proofs.OverloadOrder
import TypeCatalog.Proofs.NameOwnership
import TypeCatalog.Proofs.RestoredNames
import TypeCatalog.Proofs.Image.Rewriting
import TypeCatalog.Proofs.WrittenAgain
import TypeCatalog.Proofs.Portraits
import TypeCatalog.Proofs.Portraying
import TypeCatalog.Proofs.RegistrationOrder
import TypeCatalog.Proofs.Selection
import TypeCatalog.Proofs.Closest
import TypeCatalog.Proofs.Ancestry
import TypeCatalog.Proofs.NearestDeclaration
import TypeCatalog.Proofs.MergeEffect
import TypeCatalog.Proofs.Image.Bounds
import TypeCatalog.Proofs.Image.Rejection
import TypeCatalog.Proofs.Image.Guarded
import TypeCatalog.Proofs.Coercion
import TypeCatalog.Proofs.FastPath
import TypeCatalog.Proofs.FirstProblem
import TypeCatalog.Proofs.Flags
import TypeCatalog.Proofs.Extending
import TypeCatalog.Proofs.ModuleEvents
import TypeCatalog.Proofs.Initialization
import TypeCatalog.Proofs.DefaultConstructor
import TypeCatalog.Proofs.Image.Placement
import TypeCatalog.Proofs.Integers
import TypeCatalog.Proofs.Signatures
import TypeCatalog.Proofs.OneParameter
import TypeCatalog.Proofs.CanonicalNames
import TypeCatalog.Proofs.Image.Positions
import TypeCatalog.Proofs.Image.Blocks
import TypeCatalog.Proofs.Image.Texts
import TypeCatalog.Proofs.Image.Slots

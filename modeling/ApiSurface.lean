import ApiSurface.Main
import ApiSurface.Proofs.Project.Forest
import ApiSurface.Proofs.Routing.Join
import ApiSurface.Proofs.Project.Queue
import ApiSurface.Proofs.Project.Prefix
import ApiSurface.Proofs.Project.Placement
import ApiSurface.Proofs.Project.EffectivePath
import ApiSurface.Proofs.Project.BaseGraph
import ApiSurface.Proofs.Project.Recognition
import ApiSurface.Proofs.Project.Declarations
import ApiSurface.Proofs.Project.Inheritance
import ApiSurface.Proofs.Binding.Statements
import ApiSurface.Proofs.Binding.Chronology
import ApiSurface.Proofs.Binding.Lookup
import ApiSurface.Proofs.Text.Cutting
import ApiSurface.Proofs.Binding.ImportPath
import ApiSurface.Proofs.Project.Imports
import ApiSurface.Proofs.Types.Union
import ApiSurface.Proofs.TypeHint.Below
import ApiSurface.Proofs.TypeHint.Mentions
import ApiSurface.Proofs.TypeHint.UnionSpelling
import ApiSurface.Proofs.TypeHint.AliasGuard
import ApiSurface.Proofs.Binding.Additions
import ApiSurface.Proofs.Binding.Visits
import ApiSurface.Proofs.Binding.ParameterScope
import ApiSurface.Proofs.Binding.Aliases
import ApiSurface.Proofs.TypeHint.ParameterHints
import ApiSurface.Proofs.Binding.Stability
import ApiSurface.Proofs.Binding.Registrations
import ApiSurface.Proofs.Routing.Decorators
import ApiSurface.Proofs.Binding.Copies
import ApiSurface.Proofs.TypeHint.LocalClasses
import ApiSurface.Proofs.Project.Sweeps
import ApiSurface.Proofs.Schema.Members
import ApiSurface.Proofs.Project.Origins
import ApiSurface.Proofs.Project.InheritedValues
import ApiSurface.Proofs.Project.EnumMembers
import ApiSurface.Proofs.Project.Sorting
import ApiSurface.Proofs.Project.Shuffles
import ApiSurface.Proofs.Project.Ownership
import ApiSurface.Proofs.Project.Conservation
import ApiSurface.Proofs.Project.Embedding
import ApiSurface.Proofs.Project.ForestEmbedding
import ApiSurface.Proofs.Project.Merging
import ApiSurface.Proofs.Project.ClassEmbedding
import ApiSurface.Proofs.Project.Strangers
import ApiSurface.Proofs.Binding.Correspondence
import ApiSurface.Proofs.Binding.CatalogExtension
import ApiSurface.Proofs.Binding.Expressions
import ApiSurface.Proofs.Binding.Callees
import ApiSurface.Proofs.Extension.Readings
import ApiSurface.Proofs.Extension.Calls
import ApiSurface.Proofs.Extension.Decorators
import ApiSurface.Proofs.Extension.Groups
import ApiSurface.Proofs.Extension.Routes
import ApiSurface.Proofs.Extension.Facts
import ApiSurface.Proofs.Project.FieldLists
import ApiSurface.Proofs.Project.Includes
import ApiSurface.Proofs.Routing.Parameters
import ApiSurface.Proofs.Routing.Flags
import ApiSurface.Proofs.Routing.JoinedPlaceholders
import ApiSurface.Proofs.Project.PathParameters
import ApiSurface.Proofs.Project.RelativeImports
import ApiSurface.Proofs.TypeHint.OptionalParameters
import ApiSurface.Proofs.TypeHint.Hints
import ApiSurface.Proofs.TypeHint.Encodings
import ApiSurface.Proofs.Binding.CallPlaces
import ApiSurface.Proofs.Routing.GroupKeys
import ApiSurface.Proofs.Types.Canonical
import ApiSurface.Proofs.Routing.WrittenPaths
import ApiSurface.Proofs.TypeHint.Nesting
import ApiSurface.Proofs.Http.Urls
import ApiSurface.Proofs.Routing.JoinedPaths
import ApiSurface.Proofs.Expr.SignedNumerals
import ApiSurface.Proofs.Expr.Positions
import ApiSurface.Proofs.Routing.Lookups
import ApiSurface.Proofs.Text.Trimming
import ApiSurface.Proofs.KeyedList
import ApiSurface.Proofs.Doc.Lines
import ApiSurface.Proofs.Doc.Reading
import ApiSurface.Proofs.Doc.Written
import ApiSurface.Proofs.Config.Layers
import ApiSurface.Proofs.Session.Memory
import ApiSurface.Proofs.Files.Paths
import ApiSurface.Proofs.Files.Discovery
import ApiSurface.Proofs.TypeHint.DottedNames
import ApiSurface.Proofs.TypeHint.ImplicitAliases
import ApiSurface.Proofs.Project.ModuleNames
import ApiSurface.Proofs.Expr.Escapes
import ApiSurface.Proofs.Doc.Cleaning
import ApiSurface.Proofs.Syntax.Arena

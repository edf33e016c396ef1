import AlterScript.Change
import AlterScript.ChangeTree
import AlterScript.CommandLine.Arguments
import AlterScript.CommandLine.Invocation
import AlterScript.CommandLine.Run
import AlterScript.Cql.Command
import AlterScript.Cql.Definition
import AlterScript.Cql.Literal
import AlterScript.Cql.Name
import AlterScript.Cql.Options
import AlterScript.CqlType.Basic
import AlterScript.CqlType.Conversion
import AlterScript.CqlType.References
import AlterScript.CqlType.Resolver
import AlterScript.Dependency
import AlterScript.Entries
import AlterScript.Field.Basic
import AlterScript.Field.Ids
import AlterScript.Field.Overlay
import AlterScript.Field.Reader
import AlterScript.Json.Basic
import AlterScript.Json.Printer
import AlterScript.Json.Reader
import AlterScript.Json.Record
import AlterScript.Keyspace.Basic
import AlterScript.Keyspace.Migration
import AlterScript.Main
import AlterScript.Number.Binary64
import AlterScript.Number.Shortest
import AlterScript.Proofs.Alteration
import AlterScript.Proofs.Answers
import AlterScript.Proofs.ColumnMoves
import AlterScript.Proofs.ColumnStatements
import AlterScript.Proofs.CountedOrder
import AlterScript.Proofs.DeclaredTypes
import AlterScript.Proofs.DefinedIndexes
import AlterScript.Proofs.DefinedKeys
import AlterScript.Proofs.DependencyOrder
import AlterScript.Proofs.Destructive
import AlterScript.Proofs.Dialects
import AlterScript.Proofs.FieldSetForms
import AlterScript.Proofs.FreedNames
import AlterScript.Proofs.GatedColumns
import AlterScript.Proofs.Gating
import AlterScript.Proofs.Generated
import AlterScript.Proofs.InPlace
import AlterScript.Proofs.IndexChanges
import AlterScript.Proofs.IndexNames
import AlterScript.Proofs.KeyColumns
import AlterScript.Proofs.Levels
import AlterScript.Proofs.MergedColumns
import AlterScript.Proofs.NumberedNames
import AlterScript.Proofs.OptionAssignments
import AlterScript.Proofs.PartialOverlays
import AlterScript.Proofs.ReadingBack
import AlterScript.Proofs.Recreation
import AlterScript.Proofs.RespelledTypes
import AlterScript.Proofs.Restoration
import AlterScript.Proofs.ScriptOrder
import AlterScript.Proofs.SettingsLayers
import AlterScript.Proofs.SkippedKeyspaces
import AlterScript.Proofs.Trimming
import AlterScript.Proofs.TruthfulTags
import AlterScript.Proofs.TypeGrammar
import AlterScript.Proofs.TypeNames
import AlterScript.Proofs.TypeOrder
import AlterScript.Proofs.TypeReplacement
import AlterScript.Proofs.TypedFields
import AlterScript.Proofs.Unchanged
import AlterScript.Proofs.UnchangedTree
import AlterScript.Proofs.UniqueNames
import AlterScript.Proofs.UnreadableNodes
import AlterScript.Proofs.VersionNames
import AlterScript.Proofs.VersionOrder
import AlterScript.Proofs.Wrappers
import AlterScript.Script.Compile
import AlterScript.Script.Mode
import AlterScript.Script.Order
import AlterScript.Script.Scope
import AlterScript.Script.Statement
import AlterScript.Settings.Basic
import AlterScript.Settings.Reader
import AlterScript.Settings.Version
import AlterScript.Table.Basic
import AlterScript.Table.Column
import AlterScript.Table.Index
import AlterScript.Table.Key
import AlterScript.Table.Migration
import AlterScript.Text.Blank
import AlterScript.Text.Lines
import AlterScript.Text.Numeral
import AlterScript.Text.Quoted
import AlterScript.UserType.Basic
import AlterScript.UserType.Dependency
import AlterScript.UserType.Migration
import AlterScript.View.Basic
import AlterScript.View.Migration
import AlterScript.Yaml.Basic
import AlterScript.Yaml.Block
import AlterScript.Yaml.Node
import AlterScript.Yaml.Place
import AlterScript.Yaml.Scalar
import AlterScript.Yaml.Tag
import AlterScript.Yaml.Token

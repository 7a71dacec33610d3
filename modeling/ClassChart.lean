import ClassChart.Main
import ClassChart.Proofs.Walk
import ClassChart.Proofs.Canonical
import ClassChart.Proofs.Session
import ClassChart.Proofs.DrawnBlocks
import ClassChart.Proofs.FileAccess
import ClassChart.Proofs.Decoding
import ClassChart.Proofs.JobRuns
import ClassChart.Proofs.SourceListing
import ClassChart.Proofs.OwnErrors
import ClassChart.Proofs.Destinations
import ClassChart.Proofs.DirectoryRun
import ClassChart.Proofs.SettingsUpdates
import ClassChart.Proofs.NumberText
import ClassChart.Proofs.EscapedText
import ClassChart.Proofs.ObjectFields
import ClassChart.Proofs.JsonText
import ClassChart.Proofs.GrammarLayouts
import ClassChart.Proofs.Provenance
import ClassChart.Proofs.DocumentFrame
import ClassChart.Proofs.OutputChannels
import ClassChart.Proofs.RepeatedRun
import ClassChart.Proofs.MissingBases
import ClassChart.Proofs.CutCharacters
import ClassChart.Proofs.Pruning
import ClassChart.Proofs.SharedDestinations
import ClassChart.Proofs.FileForms
import ClassChart.Proofs.VisibleForm
import ClassChart.Proofs.UniqueLayout
import ClassChart.Proofs.FieldOrder
import ClassChart.Proofs.DocumentLines
import ClassChart.Proofs.ParameterLists
import ClassChart.Proofs.SourceSearch
import ClassChart.Proofs.ModifierText
import ClassChart.Proofs.ProjectRoots
import ClassChart.Proofs.KeptValues

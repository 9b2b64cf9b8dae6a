import ImportSuffix.Main
import ImportSuffix.Proofs.Path
import ImportSuffix.Proofs.FileTree.Contents
import ImportSuffix.Proofs.FileTree.Resolution
import ImportSuffix.Proofs.FileTree.Pruning
import ImportSuffix.Proofs.Statement.Leftmost
import ImportSuffix.Proofs.Revision.Chain
import ImportSuffix.Proofs.Revision.LineRest
import ImportSuffix.Proofs.Revision.Occurrence
import ImportSuffix.Proofs.Revision.SharedLine
import ImportSuffix.Proofs.Edit
import ImportSuffix.Proofs.Revision.Insertion
import ImportSuffix.Proofs.Walk.Completion
import ImportSuffix.Proofs.Walk.Agenda
import ImportSuffix.Proofs.Walk.FirstObstacle
import ImportSuffix.Proofs.Walk.Repetition
import ImportSuffix.Proofs.Walk.Rehearsal
import ImportSuffix.Proofs.Walk.Exclusion
import ImportSuffix.Proofs.Walk.Target
import ImportSuffix.Proofs.Walk.Spelling
import ImportSuffix.Proofs.Walk.Chronicle
import ImportSuffix.Proofs.Walk.Skipping
import ImportSuffix.Proofs.CommandLine.Acceptance
import ImportSuffix.Proofs.Verbosity
import ImportSuffix.Proofs.Revision.Composition
import ImportSuffix.Proofs.Revision.Line
import ImportSuffix.Proofs.Edit.AllOrNothing
import ImportSuffix.Proofs.CommandLine.Synonym

import SignalExpr.Main
import SignalExpr.RoutineCall
import SignalExpr.Proofs.StatementGrammar
import SignalExpr.Proofs.Compilation
import SignalExpr.Proofs.TableHistory
import SignalExpr.Proofs.ScalarFrames
import SignalExpr.Proofs.ArenaRuns
import SignalExpr.Proofs.Sessions
import SignalExpr.Proofs.OutputStream
import SignalExpr.Proofs.CallEffects
import SignalExpr.Proofs.WrittenVariables
import SignalExpr.Proofs.Printing
import SignalExpr.Proofs.CallDependence
import SignalExpr.Proofs.JoinedTexts
import SignalExpr.Proofs.Respacing
import SignalExpr.Proofs.EvaluationOrder
import SignalExpr.Proofs.SymbolResolution
import SignalExpr.Proofs.CallAcceptance
import SignalExpr.Proofs.DecimalTexts
import SignalExpr.Proofs.ErrorPlaces
import SignalExpr.Proofs.Legibility
import SignalExpr.Proofs.Outlines
import SignalExpr.Proofs.ParsedForest
import SignalExpr.Proofs.Rendering
import SignalExpr.Proofs.ShortestDecimals
import SignalExpr.Proofs.CallParts
import SignalExpr.Proofs.RandomDraws
import SignalExpr.Proofs.InputReads
import SignalExpr.Proofs.IndexedCells
import SignalExpr.Proofs.TableSums
import SignalExpr.Proofs.RecentSamples
import SignalExpr.Proofs.Numerals

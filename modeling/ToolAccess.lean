import ToolAccess.CommandLine.Run
import ToolAccess.Guard.Script
import ToolAccess.Guard.Session
import ToolAccess.Guard.Startup
import ToolAccess.Main
import ToolAccess.Confirmation.Waiting
import ToolAccess.Json.Reader
import ToolAccess.Proofs.DecidingRule
import ToolAccess.Proofs.LayeredRules
import ToolAccess.Proofs.MediatedCall
import ToolAccess.Proofs.SessionRun
import ToolAccess.Proofs.TaintGate
import ToolAccess.Proofs.PathPlaces
import ToolAccess.Proofs.ProfilePaths
import ToolAccess.Proofs.RequestLife
import ToolAccess.Proofs.TurnTaint
import ToolAccess.Proofs.ReportedFaults
import ToolAccess.Proofs.QueueAnswers
import ToolAccess.Proofs.AuditTrail
import ToolAccess.Proofs.Listing
import ToolAccess.Proofs.Numerals
import ToolAccess.Proofs.JsonText
import ToolAccess.Proofs.JsonReading
import ToolAccess.Proofs.DistinctTexts
import ToolAccess.Proofs.AuditLines
import ToolAccess.Proofs.PromptText
import ToolAccess.Proofs.ToolDeclarations
import ToolAccess.Proofs.TurnLineage
import ToolAccess.Proofs.DelegationTrees
import ToolAccess.Proofs.CancelledTrees
import ToolAccess.Proofs.AuditSilence
import ToolAccess.Proofs.EvaluationOrder
import ToolAccess.Proofs.RisingTaint
import ToolAccess.Proofs.CallEnds
import ToolAccess.Proofs.AuditBlindness
import ToolAccess.Proofs.SeparateTurns
import ToolAccess.Proofs.GlobSearch
import ToolAccess.Proofs.GlobTexts
import ToolAccess.Proofs.LiftedOverrides
import ToolAccess.Proofs.TieOrder
import ToolAccess.Proofs.BuiltMatchers
import ToolAccess.Proofs.LayerValidation
import ToolAccess.Proofs.CheckedTools
import ToolAccess.Proofs.SettingsDeclarations
import ToolAccess.Proofs.EnvironmentOverrides
import ToolAccess.Proofs.ProfileListing
import ToolAccess.Proofs.TagSpellings
import ToolAccess.Proofs.TomlTables
import ToolAccess.Proofs.DocumentDecoding
import ToolAccess.Proofs.Lookups
import ToolAccess.Proofs.RecordColumns
import ToolAccess.Proofs.ToolForms
import ToolAccess.Proofs.LevelOrders
import ToolAccess.Proofs.RequestClock
import ToolAccess.Proofs.WaitingRuns

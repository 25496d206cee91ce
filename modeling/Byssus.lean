import Byssus.Safety
import Byssus.Ownership
import Byssus.Convergence
import Byssus.Library.Pattern
import Byssus.Template
import Byssus.Config
import Byssus.Interpolation
import Byssus.Views
import Byssus.ConfigLoad
import Byssus.MembershipAreas
import Byssus.Membership
import Byssus.Runtime
import Byssus.Observe
import Byssus.ScanSpec
import Byssus.ObserveSpec
import Byssus.StateFile
import Byssus.ReadErrors
import Byssus.Watcher
import Byssus.LostGroups
import Byssus.Daemon
import Byssus.Debounce
import Byssus.DegradedGroups
import Byssus.SetLifecycle
import Byssus.Library.Json
import Byssus.Privileges
import Byssus.PrivilegesReached
import Byssus.ViewOverlap
import Byssus.GroupPlan
import Byssus.GroupInput
import Byssus.NonInterference
import Byssus.Schedule
import Byssus.Healthy
import Byssus.Notes
import Byssus.Report
import Byssus.Authority
import Byssus.FailedMount
import Byssus.Library.Footprint
import Byssus.LocalFailures
import Byssus.NoteLog
import Byssus.PassNotes
import Byssus.Rejections
import Byssus.RejectionLog
import Byssus.Library.CrashFs
import Byssus.Library.Simulation
import Byssus.StateStore
import Byssus.Binding
import Byssus.CandidateCheck
import Byssus.CandidateTrial
import Byssus.Logging
import Byssus.Mountinfo
import Byssus.ReportLevel
import Byssus.StatusText
import Byssus.SyncedWatches
import Byssus.Declarations
import Byssus.Coherent
import Byssus.Library.Hoare
import Byssus.Durable
import Byssus.Library.DirTree
import Byssus.TargetDirs
import Byssus.TreeExecution
import Byssus.TreeChanges
import Byssus.Writers
import Byssus.Notify
import Byssus.CurrentMembers
import Byssus.Check
import Byssus.Status

import PlannerBackend.Atomic
import PlannerBackend.AuthPaths
import PlannerBackend.BlankText
import PlannerBackend.Cancellation
import PlannerBackend.Custody
import PlannerBackend.Database
import PlannerBackend.DeletedOnce
import PlannerBackend.Downfall
import PlannerBackend.EmailFormat
import PlannerBackend.Index
import PlannerBackend.LostUpdate
import PlannerBackend.OnlineHash
import PlannerBackend.ReadBack
import PlannerBackend.Recovery
import PlannerBackend.StageFailures
import PlannerBackend.Standing
import PlannerBackend.Traffic
import PlannerBackend.UpdateEmail

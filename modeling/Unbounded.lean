import Unbounded.BudgetConservation
import Unbounded.SegmentsRuns
import Unbounded.Checkpoint
import Unbounded.SecondSight
import Unbounded.WalkRuns
import Unbounded.OwnerTargets
import Unbounded.OriginEvidence
import Unbounded.WithheldOrigin
import Unbounded.FillCredits
import Unbounded.FillVisits
import Unbounded.SchedulerBudget
import Unbounded.SchedulerDelivery
import Unbounded.FlightWakes
import Unbounded.MeshColumns
import Unbounded.PageIndexRuns
import Unbounded.ClockRotations
import Unbounded.ExponentialCost
import Unbounded.Lineage
import Unbounded.RouteBudget
import Unbounded.Chunk
import Unbounded.Rendezvous
import Unbounded.HealthCallbacks
import Unbounded.GatewayRoutes

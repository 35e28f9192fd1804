import SslaRt.CelledRefinement
import SslaRt.CellPartition
import SslaRt.GpuRingSafety
import SslaRt.PredictionLayout
import SslaRt.HaloExactness
import SslaRt.ShardLeak
import SslaRt.Geometry
import SslaRt.TdropLaw
import SslaRt.HeadCollisions
import SslaRt.CellOrder
import SslaRt.SpscRefinement
import SslaRt.Conservation
import SslaRt.FusedStages
import SslaRt.ExplicitLayer
import SslaRt.ShardLayerExact
import SslaRt.LoadedSchema
import SslaRt.StagePipelineLevels
import SslaRt.LockedSchemeSpec
import SslaRt.NeonLru
import SslaRt.EventRingSpec
import SslaRt.BlockTopology
import SslaRt.OracleSpec
import SslaRt.PredictionMap
import SslaRt.WeightFusionSpec
import SslaRt.TwoLayerHeadSpec
import SslaRt.LayerForwardLocked
import SslaRt.ReplicatedSchemeLeak
import SslaRt.Bag
import SslaRt.SumScheme
import SslaRt.SumSchemeClosing
import SslaRt.SumSchemeLeft
import SslaRt.SumSchemeProgress
import SslaRt.SumSchemeSpec
import SslaRt.SumSchemeSequential
import SslaRt.SharedRing
import SslaRt.OwnerScheme
import SslaRt.OwnerSchemeOrder
import SslaRt.OwnerSchemeMerge
import SslaRt.OwnerSchemeLedger
import SslaRt.OwnerSchemeMatch
import SslaRt.OwnerSchemeCount
import SslaRt.OwnerSchemeConserve
import SslaRt.OwnerSchemeSpec
import SslaRt.NpzWeights
import SslaRt.MetaSpec
import SslaRt.StubExportLoad

import RandomArt.RegionMapNames
import RandomArt.SentProject

/-!
# Which submissions return

Past a working codec and queue a submission is rejected for one of two reasons: a region map is not
found, or an image needs more jobs than an array can hold.
-/

namespace RandomArt.FlowProducer

open ChunkPlan Envelope RegionMapLookup Failing FallibleFold

variable {Obj Domain ProjectDomain Coord : Type}
variable (producer : Producer Obj Domain ProjectDomain Coord)

variable {producer} {codec : EnvelopeCodec Obj} (hcarries : CarriesBodies producer codec)
include hcarries

end RandomArt.FlowProducer

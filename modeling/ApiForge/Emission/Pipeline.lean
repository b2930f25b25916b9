import ApiForge.Emission.Defaults

/-! Emitters in the order in which they run. -/

namespace ApiForge

structure Pipeline where
  emitters : List Emitter
  /-- A failing emitter does not keep the others from running. -/
  keepGoing : Bool := false

namespace Pipeline

/-- The emitters by stage; emitters of one stage keep their order. -/
def ofEmitters (emitters : List Emitter) : Pipeline where
  emitters := sortBy (fun a b => decide (a.stage.position ≤ b.stage.position)) emitters

/-- Only the emitters of the stages, or all if none are named. -/
def only (p : Pipeline) (stages : List Stage) : Pipeline :=
  if stages = [] then p else { p with emitters := p.emitters.filter (stages.contains ·.stage) }

def builtIn : Pipeline :=
  ofEmitters defaultEmitters

end Pipeline

end ApiForge

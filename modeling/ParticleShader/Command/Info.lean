import ParticleShader.Command.Report
import ParticleShader.Text.Table

/-!
# Showing a layout

The settings of a described set and a table of its nodes in emission order.
-/

namespace ParticleShader.Command

/-- The table row of the node at a position. -/
def nodeRow (info : NodeInfo) (position : Nat) : List String :=
  let (mode, offset) :=
    match info.mode with
    | .global => ("global", "-")
    | .perParticle .baked => ("static", toString info.offset)
    | .perParticle .dynamic => ("dynamic", toString info.dynamicOffset)
  [toString position, s!"#{info.id}", info.name, toString info.priority, info.block.name, mode,
   toString info.length, offset]

/-- The table of nodes. -/
def nodeTable {α : Type} (set : NodeSet α) : Text.Table where
  titles := ["Order", "Id", "Node", "Priority", "Block", "Mode", "Length", "Offset"]
  rows := set.nodes.zipIdx.map fun (n, position) => nodeRow n.info position

/-- Shows the layout of a description. -/
def info (path : String) (description : Description Float32) : Report :=
  match description.animation (σ := Unit) with
  | .error failure => .failed failure
  | .ok animation =>
    let set := animation.nodes
    let life := set.settings.lifecycle
    let summary :=
      [s!"Animation set: {path}",
       s!"Profile:        {description.profile.name}",
       s!"Settings:       duration={life.usesDuration} looping={life.usesLooping} " ++
         s!"delay={life.usesDelay}",
       s!"Flags:          {set.settings.features.describe}",
       s!"Record stride:  {set.stride}",
       s!"Dynamic stride: {set.dynamicStride}",
       ""]
    let nodes := if set.nodes.isEmpty then ["No nodes."] else (nodeTable set).lines
    { printed := printLines (summary ++ nodes) }

end ParticleShader.Command

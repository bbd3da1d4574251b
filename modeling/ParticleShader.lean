import ParticleShader.Command.Run
import ParticleShader.Main
import ParticleShader.Proofs.NodeSet.Grown
import ParticleShader.Proofs.NodeSet.Built
import ParticleShader.Proofs.Outcome
import ParticleShader.Proofs.Records.Slices
import ParticleShader.Proofs.Geometry.Runs
import ParticleShader.Proofs.Animation.Baking
import ParticleShader.Proofs.Compilation.Independence
import ParticleShader.Proofs.Compilation.Temporaries
import ParticleShader.Proofs.Compilation.Pools
import ParticleShader.Proofs.Node.Emission
import ParticleShader.Proofs.Compilation.Fragments
import ParticleShader.Proofs.Compilation.Spending
import ParticleShader.Proofs.Node.Costs
import ParticleShader.Proofs.NodeSet.Features
import ParticleShader.Proofs.NodeSet.Admission
import ParticleShader.Proofs.Instruction.Accesses
import ParticleShader.Proofs.Node.Programs
import ParticleShader.Proofs.Node.Quantities
import ParticleShader.Proofs.Node.Accesses
import ParticleShader.Proofs.NodeSet.WellFormed
import ParticleShader.Proofs.Node.Needs
import ParticleShader.Proofs.NodeSet.Compiled
import ParticleShader.Proofs.Compilation.Staging
import ParticleShader.Proofs.Node.Staging
import ParticleShader.Proofs.Node.Refusal
import ParticleShader.Proofs.NodeSet.Constants
import ParticleShader.Proofs.NodeSet.Activation
import ParticleShader.Proofs.NodeSet.Streams
import ParticleShader.Proofs.NodeSet.Transfer
import ParticleShader.Proofs.NodeSet.Collisions
import ParticleShader.Proofs.Geometry.Supply
import ParticleShader.Proofs.Geometry.Building
import ParticleShader.Proofs.Animation.Sharing
import ParticleShader.Proofs.Instruction.Semantics
import ParticleShader.Proofs.Node.Motion
import ParticleShader.Proofs.Node.Computation
import ParticleShader.Proofs.NodeSet.Kinematics
import ParticleShader.Proofs.NodeSet.Assembly
import ParticleShader.Proofs.NodeSet.Motion
import ParticleShader.Proofs.NodeSet.Loops
import ParticleShader.Proofs.Animation.Additions
import ParticleShader.Proofs.NodeSet.Sequence
import ParticleShader.Proofs.Animation.Meshes
import ParticleShader.Proofs.Animation.Refusal
import ParticleShader.Proofs.Instruction.Renaming
import ParticleShader.Proofs.Node.Twins
import ParticleShader.Proofs.Node.Lockstep
import ParticleShader.Proofs.Node.Forms
import ParticleShader.Proofs.NodeSet.Delivery
import ParticleShader.Proofs.Node.Closure
import ParticleShader.Proofs.Compilation.Budgets
import ParticleShader.Proofs.NodeSet.Budgets
import ParticleShader.Proofs.Animation.Reuse
import ParticleShader.Proofs.Node.Sparing
import ParticleShader.Proofs.Node.Shading
import ParticleShader.Proofs.NodeSet.Palettes
import ParticleShader.Proofs.NodeSet.Keeping
import ParticleShader.Proofs.NodeSet.Following
import ParticleShader.Proofs.NodeSet.Shading
import ParticleShader.Proofs.Compilation.Calls
import ParticleShader.Proofs.Compilation.Ranges
import ParticleShader.Proofs.Compilation.Phases
import ParticleShader.Proofs.Compilation.Finishing
import ParticleShader.Proofs.NodeSet.Varyings
import ParticleShader.Proofs.NodeSet.Places
import ParticleShader.Proofs.NodeSet.Lives
import ParticleShader.Proofs.NodeSet.Sheets
import ParticleShader.Proofs.Animation.Frames
import ParticleShader.Proofs.Geometry.Flat
import ParticleShader.Proofs.Command.Generate
import ParticleShader.Proofs.Instruction.Primitives
import ParticleShader.Proofs.Instruction.Within
import ParticleShader.Proofs.Node.Orientation
import ParticleShader.Proofs.NodeSet.Orientations
import ParticleShader.Proofs.Node.Scratch
import ParticleShader.Proofs.NodeSet.Scratch
import ParticleShader.Proofs.NodeSet.Continuing
import ParticleShader.Proofs.NodeSet.Requests
import ParticleShader.Proofs.Text.Numeral
import ParticleShader.Proofs.Register.Name
import ParticleShader.Proofs.Geometry.Parts
import ParticleShader.Proofs.NodeSet.Restaging
import ParticleShader.Proofs.Compilation.Allowances
import ParticleShader.Proofs.NodeSet.Offsets
import ParticleShader.Proofs.Register.Spelling
import ParticleShader.Proofs.Geometry.Spreading
import ParticleShader.Proofs.NodeSet.Described
import ParticleShader.Proofs.NodeSet.Sizes
import ParticleShader.Proofs.Compilation.Writing

import GpuCodegen.Target.Generation

/-!
Features of generations. Selection and encoding ask for a feature before they commit to a form.
-/

namespace GpuCodegen

/-- A capability of some generations. -/
inductive Feature where
  | basicAlu | basicAtomics | atomicInt64 | fp64 | int64 | images | image3dWrite | openCl20
  | subgroups | simd8 | simd16 | tripleSimd16 | nativeInt64Mul | splitImageFence | qwordPointers
  | splitSend | imm64 | wideBarrierId | dataCache1 | motionEstimation
  deriving DecidableEq, Repr

namespace Feature

/-- Every feature, in numbering order. -/
def all : List Feature :=
  [.basicAlu, .basicAtomics, .atomicInt64, .fp64, .int64, .images, .image3dWrite, .openCl20,
    .subgroups, .simd8, .simd16, .tripleSimd16, .nativeInt64Mul, .splitImageFence, .qwordPointers,
    .splitSend, .imm64, .wideBarrierId, .dataCache1, .motionEstimation]

/-- The feature with a given number. -/
def ofCode? (code : Int) : Option Feature :=
  if code < 0 then none else all[code.toNat]?

/-- The name of a feature. -/
def name : Feature → String
  | .basicAlu => "basic-alu"
  | .basicAtomics => "basic-atomics"
  | .atomicInt64 => "atomic-int64"
  | .fp64 => "fp64"
  | .int64 => "int64"
  | .images => "images"
  | .image3dWrite => "image3d-write"
  | .openCl20 => "opencl20"
  | .subgroups => "subgroups"
  | .simd8 => "simd8"
  | .simd16 => "simd16"
  | .tripleSimd16 => "3src-simd16"
  | .nativeInt64Mul => "native-int64-mul"
  | .splitImageFence => "split-image-fence"
  | .qwordPointers => "qword-pointers"
  | .splitSend => "split-send"
  | .imm64 => "imm64"
  | .wideBarrierId => "wide-barrier-id"
  | .dataCache1 => "data-cache1"
  | .motionEstimation => "motion-estimation"

/-- The name of the feature with a given number, `unknown` for a number outside the list. -/
def nameOfCode (code : Int) : String := ((ofCode? code).map name).getD "unknown"

end Feature

namespace Generation

/-- The known generations that are no older than `oldest`. -/
def since (oldest : Generation) : List Generation :=
  all.filter fun g => oldest.number ≤ g.number

/-- The generations that have a feature. -/
def withFeature : Feature → List Generation
  | .basicAlu | .basicAtomics | .images | .simd8 | .simd16 => all
  | .fp64 | .subgroups => since .gen7
  | .image3dWrite | .dataCache1 => since .gen75
  | .int64 | .tripleSimd16 | .qwordPointers | .imm64 => since .gen8
  | .splitImageFence | .splitSend | .wideBarrierId | .motionEstimation => since .gen9
  | .atomicInt64 => [.gen9, .kbl]
  | .nativeInt64Mul => [.gen8, .gen9, .kbl]
  | .openCl20 => [.gen8, .gen9, .kbl, .bxt, .glk]

/-- Whether a generation has a feature; unlisted generations have none. -/
def supports (g : Generation) (f : Feature) : Bool := (withFeature f).contains g

/-- Whether a generation has the feature with a given number; a number outside the list is no
feature of any. -/
def supportsCode (g : Generation) (code : Int) : Bool :=
  ((Feature.ofCode? code).map g.supports).getD false

/-- The features of a generation, in numbering order. -/
def features (g : Generation) : List Feature := Feature.all.filter g.supports

end Generation

end GpuCodegen

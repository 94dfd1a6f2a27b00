import AbiBuild.Tasks.Program

namespace AbiBuild.Tasks

def nativeStem : String := "buildCargoNdk"

def hookStem : String := "javaPreCompile"

def nativeTask (v : Variant) : String := nativeStem ++ v.suffix

def hookTask (v : Variant) : String := hookStem ++ v.suffix

-- Exactly the hooks of the two variants, in their exact spelling.
def hookVariant? (task : String) : Option Variant := Variant.all.find? fun v => hookTask v = task

-- Makes the hook of a wired variant need its native task, and lets every other task be.
def hookListener (variants : List Variant) (task : String) : Program σ :=
  match hookVariant? task with
  | none => .skip
  | some v => if v ∈ variants then .addNeed task (nativeTask v) (.orFail .skip) else .skip

def nativeEdges (variants : List Variant) (all : List Edge) : List Edge :=
  all.filter fun e => e.before ∈ variants.map nativeTask

def wireVariants (build : Variant → Program σ) (variants : List Variant) : Program σ :=
  .wire variants build .answered

-- Every name is checked before anything is registered.
def wire (build : Variant → Program σ) (names : List Value) : Program σ :=
  match names.mapM Variant.parse with
  | .ok variants => wireVariants build variants
  | .error fault => .fail (.ofVariant fault)

-- The graph of a package: native tasks first, then a hook for each variant.
def packageGraph (build : Variant → Program σ) : Program σ :=
  (wireVariants build Variant.all).andThen
    (.all (Variant.all.map fun v => .register (hookTask v) .skip (.orFail .skip)))

end AbiBuild.Tasks

import AbiBuild.Failure
import AbiBuild.FileTree.Access
import AbiBuild.Table

namespace AbiBuild

structure Config where
  modulePath : FilePath
  architectures : List Abi
  libraries : List String
  targetDir : FilePath
  jniLibsDir : FilePath
  platform : Int
  ndkDir : Option FilePath
  ndkVersion : Option String
  cargoBin : Option String
  environment : Table String
  arguments : List String
  verbose : Bool
  jobs : Option Int
  buildTypes : Table String
  deriving DecidableEq, Repr

namespace Config

def manifest (c : Config) : FilePath := c.modulePath.child "Cargo.toml"

def abiDir (c : Config) (abi : Abi) : FilePath := c.targetDir.child abi.text

def outputDir (c : Config) (abi : Abi) (p : Profile) : FilePath :=
  ((c.abiDir abi).child abi.triple).child p.outputDir

def markerName : String := ".ndk-bridge-incomplete"

def marker (c : Config) (abi : Abi) : FilePath := (c.abiDir abi).child markerName

def overrides (c : Config) : List (Value × Value) :=
  c.buildTypes.map fun (key, profile) => (.text key, .text profile)

end Config

end AbiBuild

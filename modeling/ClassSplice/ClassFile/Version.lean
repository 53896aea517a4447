import ClassSplice.Binary.Reader
import ClassSplice.Binary.Writer

namespace ClassSplice

open Binary

structure Version where
  major : UInt16
  minor : UInt16
  deriving DecidableEq, Repr

namespace Version

/-- The last major version whose method bodies are accepted without verification frames. -/
def lastWithoutFrames : UInt16 := 50

def framesOptional (version : Version) : Bool :=
  version.major ≤ lastWithoutFrames

def read : Reader Version := do
  let minor ← Reader.u16
  let major ← Reader.u16
  return ⟨major, minor⟩

def write (version : Version) : List UInt8 :=
  Writer.u16 version.minor ++ Writer.u16 version.major

end Version
end ClassSplice

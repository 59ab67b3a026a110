import Akiso.Shared.CString

set_option autoImplicit false

namespace Akiso.Shell

open CString

def tab : UInt8 := 9
def newline : UInt8 := 10
def carriageReturn : UInt8 := 13
def space : UInt8 := 32
def ampersand : UInt8 := 38
def less : UInt8 := 60
def greater : UInt8 := 62
def backslash : UInt8 := 92
def bar : UInt8 := 124

def whitespace : List UInt8 := [space, tab, newline, carriageReturn]

def charInSet (c : UInt8) (set : List UInt8) : Bool :=
  set.any (· == c)

@[simp] theorem charInSet_eq_true (c : UInt8) (set : List UInt8) :
    charInSet c set = true ↔ c ∈ set := by
  simp [charInSet]

def trimFront (str characters : List UInt8) : List UInt8 :=
  str.dropWhile (charInSet · characters)

-- The loop of trim_end counts upwards, so it only ever touches the memory from its start on.
def trimEndFrom (characters : List UInt8) : List UInt8 → List UInt8
  | [] => []
  | byte :: rest =>
    if charInSet byte characters then 0 :: trimEndFrom characters rest else byte :: rest

def trimEnd (memory characters : List UInt8) : List UInt8 :=
  let start := strlen memory - 1
  if 0 < start then memory.take start ++ trimEndFrom characters (memory.drop start) else memory

end Akiso.Shell

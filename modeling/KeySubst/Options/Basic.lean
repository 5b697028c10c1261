import KeySubst.Matcher.Basic

namespace KeySubst

def defaultIncluded : String := "./src/**/*"

structure Options (σ : Type) where
  included : List String := [defaultIncluded]
  excluded : List String := []
  delimiters : Option (String × String) := none
  preventAssignment : Bool := true
  sourceMaps : Bool := true
  values : Table σ := ∅
  baseDirectory : Option String := none

namespace Options

variable {σ : Type}

instance : Inhabited (Options σ) := ⟨{}⟩

def value (o : Options σ) (key : String) (r : Replacement σ) : Options σ :=
  { o with values := o.values.insert key r }

def matching (o : Options σ) : MatchOptions := ⟨o.delimiters, o.preventAssignment⟩

end Options

end KeySubst

/-!
# Key lists

Keys in the order of their first occurrence, each of them once.
-/
namespace EnvAudit

structure KeyList where
  keys : List String
  nodup : keys.Nodup
  deriving DecidableEq

namespace KeyList

def empty : KeyList := ⟨[], List.nodup_nil⟩

instance : Inhabited KeyList := ⟨empty⟩

def contains (list : KeyList) (key : String) : Bool := list.keys.contains key

/-- Puts a new key behind all others. -/
def insert (list : KeyList) (key : String) : KeyList :=
  if absent : key ∈ list.keys then list
  else
    ⟨list.keys ++ [key], by
      rw [List.nodup_append]
      refine ⟨list.nodup, by simp, ?_⟩
      intro first member second same
      rw [List.mem_singleton.mp same]
      rintro rfl
      exact absent member⟩

/-- Puts the new ones of some keys behind all others, in their order. -/
def extend (list : KeyList) (keys : List String) : KeyList := keys.foldl insert list

def ofList (keys : List String) : KeyList := empty.extend keys

theorem keys_insert (list : KeyList) (key : String) :
    (list.insert key).keys = if key ∈ list.keys then list.keys else list.keys ++ [key] := by
  unfold insert
  split <;> rfl

end KeyList

end EnvAudit

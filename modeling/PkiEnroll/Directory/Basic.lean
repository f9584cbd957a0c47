import PkiEnroll.Directory.Descriptor

namespace PkiEnroll

open Cmp Directory

/-- The first text that has come before. -/
def Directory.firstRepeated (seen : List String) : List String → Option String
  | [] => none
  | name :: names => if name ∈ seen then some name else firstRepeated (name :: seen) names

theorem Directory.nodup_of_firstRepeated {seen names : List String}
    (h : firstRepeated seen names = none) : names.Nodup ∧ ∀ n ∈ names, n ∉ seen := by
  induction names generalizing seen with
  | nil => simp
  | cons name names ih =>
    rw [firstRepeated] at h
    split at h
    · cases h
    · rename_i hseen
      obtain ⟨hn, hd⟩ := ih h
      refine ⟨List.nodup_cons.2 ⟨fun hm => hd name hm List.mem_cons_self, hn⟩, ?_⟩
      intro n hm
      rcases List.mem_cons.1 hm with rfl | hm
      · exact hseen
      · exact fun hs => hd n hm (List.mem_cons_of_mem name hs)

structure Directory where
  servers : List Descriptor
  nodup : (servers.map Descriptor.caName).Nodup

namespace Directory

def ofList (servers : List Descriptor) : Except Failure Directory :=
  match h : firstRepeated [] (servers.map Descriptor.caName) with
  | none => .ok ⟨servers, (nodup_of_firstRepeated h).1⟩
  | some name => .error (.configuration ("Duplicate caName: " ++ name))

def names (d : Directory) : List String := d.servers.map Descriptor.caName

def size (d : Directory) : Nat := d.servers.length

def resolve (d : Directory) (name : String) : Except Failure Descriptor :=
  orFail (.serverNotFound name) (d.servers.find? (·.caName = name))

def masked (d : Directory) : String :=
  Text.described "ServerDirectory"
    [("servers", "[" ++ ", ".intercalate (d.servers.map Descriptor.masked) ++ "]")]

end Directory

end PkiEnroll

import PkiEnroll.Proofs.Directory.Rules

namespace PkiEnroll

open Cmp Protection Directory

namespace Directory

/-- A directory made of sources: a descriptor from each, in their order, which keeps the rules and is
found under the name of its source. -/
structure MadeOf {α : Type} (rules : Descriptor → Prop) (name : α → String)
    (build : α → Except Failure Descriptor) (sources : List α) (d : Directory) : Prop where
  servers : List.Forall₂ (fun a s => build a = .ok s) sources d.servers
  names : d.names = sources.map name
  nodup : d.names.Nodup
  found : ∀ a ∈ sources, ∃ s, build a = .ok s ∧ d.resolve (name a) = .ok s
  missing : ∀ n f, d.resolve n = .error f ↔ f = .serverNotFound n ∧ n ∉ sources.map name
  rules : ∀ s ∈ d.servers, rules s
  context : ∀ s ∈ d.servers, ∀ salt iterations, ∃ c, s.context salt iterations = .ok c

/-- What comes of loading: a directory made of all sources, or none because of one of them or because
two have the same name. -/
inductive Loads {α : Type} (rules : Descriptor → Prop) (name : α → String)
    (build : α → Except Failure Descriptor) (sources : List α) : Except Failure Directory → Prop
  | loaded {d : Directory} (h : MadeOf rules name build sources d) :
      Loads rules name build sources (.ok d)
  | refused {f : Failure} (hf : f.kind = .configuration)
      (h : (∃ a ∈ sources, ∃ g, build a = .error g) ∨ ¬(sources.map name).Nodup) :
      Loads rules name build sources (.error f)

section

variable {α : Type} {read : Readers} {rules : Descriptor → Prop} {name : α → String}
  {build : α → Except Failure Descriptor} {sources : List α} {servers : List Descriptor}

end

end Directory

namespace Protection

namespace Credential

end Credential

end Protection

namespace Directory

namespace Entry

variable {read : Readers} {files : Files} {directory : String} {e : Entry} {s : Descriptor}

end Entry

variable {read : Readers}

/-- What comes of reading a document: it is not a list of entries, or its entries are loaded. -/
inductive Reads (read : Readers) (files : Files) (directory : String) (format : Format) (text : String) :
    Except Failure Directory → Prop
  | unreadable {f : Failure} (hf : f.kind = .configuration)
      (h : Entry.listOfText? read format text = none) : Reads read files directory format text (.error f)
  | entries {entries : List Entry} {result : Except Failure Directory}
      (h : Entry.listOfText? read format text = some entries)
      (hload : Loads (Loaded read) Entry.caName (Entry.descriptor read files directory) entries result) :
      Reads read files directory format text result

namespace Sample

def entry : Entry where
  caName := "CA"
  url := "http://ca/"
  issuerDn := "CN=CA"
  mode := .client
  authentication := .sharedSecret "p" "r"
  caCertificate := none
  implicitConfirm := none

end Sample

end Directory

end PkiEnroll

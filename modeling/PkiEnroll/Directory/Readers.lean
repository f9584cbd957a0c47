import PkiEnroll.Document.Toml
import PkiEnroll.Url.Basic
import PkiEnroll.X509.NameText

namespace PkiEnroll.Directory

open Document X509

/-- How the texts are read that describe CAs. The readers are given from outside, and what a directory
promises does not depend on them. -/
structure Readers where
  json : String → Option Value
  toml : String → Option Value
  name : String → Option Name
  /-- Fails with what is wrong with the text. -/
  url : String → Except String Url

/-- Readers that know the names in `Registry.branches` and map the characters that `Host.fold` does. -/
def Readers.standard : Readers where
  json := Json.ofText?
  toml := Toml.ofText?
  name := Name.ofText?
  url text := (Url.ofText? text).mapError Url.Problem.message

end PkiEnroll.Directory

import PkiEnroll.Enroll.Polling
import PkiEnroll.Text.Duration

namespace PkiEnroll

open Enroll

/-- Which servers a secure channel is opened to. This says nothing of the messages themselves. -/
inductive Config.Trust where
  | webPki
  | explicit (certificates : List Bytes)
  | any
  deriving DecidableEq, Repr

def Config.Trust.text : Config.Trust → String
  | webPki => "WebPki"
  | explicit certificates => "Explicit(" ++ Nat.repr certificates.length ++ " certs)"
  | any => "InsecureAcceptAny"

/-- What a client shows a server of itself: a certificate chain and a private key, in PEM form. -/
structure Config.Identity where
  certificate : Bytes
  key : Bytes
  deriving DecidableEq, Repr

def Config.Identity.ofFiles? (files : String → Option Bytes) (certificate key : String) :
    Option Config.Identity := do
  return ⟨← files certificate, ← files key⟩

structure Config where
  identity : Option Config.Identity := none
  trust : Config.Trust := .webPki
  /-- In milliseconds. -/
  timeout : Nat := 30000
  headers : List (String × String) := []
  /-- In bytes. -/
  maxResponseSize : Nat := 1048576
  polling : Polling := {}
  deriving DecidableEq, Repr

namespace Config

inductive Problem where
  | timeout
  | responseSize
  | polls
  deriving DecidableEq, Repr

def Problem.message : Problem → String
  | timeout => "timeout must be greater than zero"
  | responseSize => "max_response_size must be greater than zero"
  | polls => "max_polls must be at least 1"

/-- Refuses settings under which nothing could be received or waited for. -/
def check (c : Config) : Except Problem Config :=
  if c.timeout = 0 then .error .timeout
  else if c.maxResponseSize = 0 then .error .responseSize
  else if c.polling.maxPolls = 0 then .error .polls
  else .ok c

def masked (c : Config) : String :=
  Text.described "CmpClientConfig"
    [("client_identity", toString c.identity.isSome), ("trust_anchors", c.trust.text),
      ("timeout", Text.duration (c.timeout * 1000000)), ("max_response_size", Nat.repr c.maxResponseSize),
      ("polling", c.polling.text)]

end Config

end PkiEnroll

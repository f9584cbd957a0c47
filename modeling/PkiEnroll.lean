import PkiEnroll.Bytes
import PkiEnroll.Cmp.Body
import PkiEnroll.Cmp.Failure
import PkiEnroll.Cmp.Header
import PkiEnroll.Cmp.Message
import PkiEnroll.Cmp.Status
import PkiEnroll.Cmp.Template
import PkiEnroll.Config.Basic
import PkiEnroll.Der.Element
import PkiEnroll.Der.Encoding
import PkiEnroll.Der.Integer
import PkiEnroll.Der.NamedBits
import PkiEnroll.Der.Oid
import PkiEnroll.Der.Primitive
import PkiEnroll.Der.Tag
import PkiEnroll.Der.Time
import PkiEnroll.Directory.Basic
import PkiEnroll.Directory.Descriptor
import PkiEnroll.Directory.Entry
import PkiEnroll.Directory.Readers
import PkiEnroll.Document.Json
import PkiEnroll.Document.Toml
import PkiEnroll.Document.Value
import PkiEnroll.Enroll.Chain
import PkiEnroll.Enroll.Polling
import PkiEnroll.Enroll.Request
import PkiEnroll.Enroll.Run
import PkiEnroll.Enroll.Session
import PkiEnroll.Enroll.Verdict
import PkiEnroll.Hash.Function
import PkiEnroll.Hash.Sha1
import PkiEnroll.Hash.Sha2
import PkiEnroll.Http.Client
import PkiEnroll.Http.Exchange
import PkiEnroll.Http.Reason
import PkiEnroll.Http.Request
import PkiEnroll.Pem.Base64
import PkiEnroll.Pem.Section
import PkiEnroll.Protection.Context
import PkiEnroll.Protection.Credential
import PkiEnroll.Protection.PasswordMac
import PkiEnroll.Protection.Signature
import PkiEnroll.Rsa.Key
import PkiEnroll.Rsa.Signature
import PkiEnroll.Text.Duration
import PkiEnroll.Text.Lossy
import PkiEnroll.Text.Quoted
import PkiEnroll.Url.Basic
import PkiEnroll.Url.Host
import PkiEnroll.Url.Percent
import PkiEnroll.Url.Punycode
import PkiEnroll.X509.Algorithm
import PkiEnroll.X509.Certificate
import PkiEnroll.X509.CertificationRequest
import PkiEnroll.X509.Extension
import PkiEnroll.X509.GeneralName
import PkiEnroll.X509.Name
import PkiEnroll.X509.NameText
import PkiEnroll.X509.Registry
import PkiEnroll.Proofs.Cmp.ReceivedPart
import PkiEnroll.Proofs.Enroll.Machine
import PkiEnroll.Proofs.Protection.Context
import PkiEnroll.Proofs.Enroll.Verdict
import PkiEnroll.Proofs.Enroll.Authentic
import PkiEnroll.Proofs.Enroll.FailureKind
import PkiEnroll.Proofs.Enroll.Conversation
import PkiEnroll.Proofs.Enroll.Chain
import PkiEnroll.Proofs.Enroll.ExtraCerts
import PkiEnroll.Proofs.Der.NamedBits
import PkiEnroll.Proofs.Enroll.CertificationPath
import PkiEnroll.Proofs.Protection.Flaw
import PkiEnroll.Proofs.Cmp.Body
import PkiEnroll.Proofs.Enroll.Outcome
import PkiEnroll.Proofs.Enroll.PollBudget
import PkiEnroll.Proofs.Der.Codec
import PkiEnroll.Proofs.Der.Record
import PkiEnroll.Proofs.Der.Integer
import PkiEnroll.Proofs.Der.Primitive
import PkiEnroll.Proofs.Der.Time
import PkiEnroll.Proofs.Der.SetOf
import PkiEnroll.Proofs.X509.Codec
import PkiEnroll.Proofs.Cmp.Codec
import PkiEnroll.Proofs.Cmp.Canonical
import PkiEnroll.Proofs.Enroll.FirstIssuer
import PkiEnroll.Proofs.Cmp.Parts
import PkiEnroll.Proofs.Enroll.CaCertificates
import PkiEnroll.Proofs.Enroll.Identifiers
import PkiEnroll.Proofs.Rsa.Signature
import PkiEnroll.Proofs.Protection.Acceptance
import PkiEnroll.Proofs.Enroll.Contact
import PkiEnroll.Proofs.Enroll.Confirmation
import PkiEnroll.Proofs.Directory.Rules
import PkiEnroll.Proofs.Directory.Loading
import PkiEnroll.Proofs.Protection.Responder
import PkiEnroll.Proofs.Protection.PasswordMac
import PkiEnroll.Proofs.Protection.ProtectedPart
import PkiEnroll.Proofs.Enroll.Root
import PkiEnroll.Proofs.Enroll.Overlap
import PkiEnroll.Proofs.Enroll.ListOrder
import PkiEnroll.Proofs.Protection.SignedPart
import PkiEnroll.Proofs.Cmp.Dispatch
import PkiEnroll.Proofs.Cmp.Framing
import PkiEnroll.Proofs.Cmp.FailureBits
import PkiEnroll.Proofs.Cmp.CarriedProtection
import PkiEnroll.Proofs.Cmp.CarriedRequests
import PkiEnroll.Proofs.Der.Calendar
import PkiEnroll.Proofs.Enroll.Prepared
import PkiEnroll.Proofs.Enroll.ValidityPeriod
import PkiEnroll.Proofs.Enroll.ProofOfPossession
import PkiEnroll.Proofs.Text.Utf8
import PkiEnroll.Proofs.Pem.Base64
import PkiEnroll.Proofs.Pem.Section
import PkiEnroll.Proofs.Http.Exchange
import PkiEnroll.Proofs.Enroll.RequestedExtensions
import PkiEnroll.Proofs.Enroll.PemBundle

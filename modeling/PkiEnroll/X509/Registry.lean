import PkiEnroll.Der.Oid

namespace PkiEnroll.X509

open Der

namespace Registry

/-- Identifiers with a common parent: their last arcs and their names, the shortest first. -/
structure Branch where
  parent : List Nat
  entries : List (Nat × List String)

def attributeTypes : Branch where
  parent := [2, 5, 4]
  entries := [
    (1, ["aliasedObjectName"]), (2, ["knowledgeInformation"]), (3, ["cn", "commonName"]),
    (4, ["sn", "surname"]), (5, ["serialNumber"]), (6, ["c", "countryName"]),
    (7, ["l", "localityName"]), (8, ["st", "stateOrProvinceName"]),
    (9, ["street", "streetAddress"]), (10, ["o", "organizationName"]),
    (11, ["ou", "organizationalUnitName"]), (12, ["title"]), (13, ["description"]),
    (14, ["searchGuide"]), (15, ["businessCategory"]), (16, ["postalAddress"]),
    (17, ["postalCode"]), (18, ["postOfficeBox"]), (19, ["physicalDeliveryOfficeName"]),
    (20, ["telephoneNumber"]), (21, ["telexNumber"]), (22, ["teletexTerminalIdentifier"]),
    (23, ["facsimileTelephoneNumber"]), (24, ["x121Address"]), (25, ["internationalISDNNumber"]),
    (26, ["registeredAddress"]), (27, ["destinationIndicator"]),
    (28, ["preferredDeliveryMethod"]), (29, ["presentationAddress"]),
    (30, ["supportedApplicationContext"]), (31, ["member"]), (32, ["owner"]),
    (33, ["roleOccupant"]), (34, ["seeAlso"]), (35, ["userPassword"]), (36, ["userCertificate"]),
    (37, ["cACertificate"]), (38, ["authorityRevocationList"]),
    (39, ["certificateRevocationList"]), (40, ["crossCertificatePair"]), (41, ["name"]),
    (42, ["givenName"]), (43, ["initials"]), (44, ["generationQualifier"]),
    (45, ["x500UniqueIdentifier"]), (46, ["dnQualifier"]), (47, ["enhancedSearchGuide"]),
    (48, ["protocolInformation"]), (49, ["distinguishedName"]), (50, ["uniqueMember"]),
    (51, ["houseIdentifier"]), (52, ["supportedAlgorithms"]), (53, ["deltaRevocationList"]),
    (54, ["dmdName"]), (55, ["id-at-clearance"]), (65, ["pseudonym"]), (72, ["id-at-role"])]

def objectClasses : Branch where
  parent := [2, 5, 6]
  entries := [
    (0, ["top"]), (1, ["alias"]), (2, ["country"]), (3, ["locality"]), (4, ["organization"]),
    (5, ["organizationalUnit"]), (6, ["person"]), (7, ["organizationalPerson"]),
    (8, ["organizationalRole"]), (9, ["groupOfNames"]), (10, ["residentialPerson"]),
    (11, ["applicationProcess"]), (12, ["applicationEntity"]), (13, ["dSA"]), (14, ["device"]),
    (15, ["strongAuthenticationUser"]), (16, ["certificationAuthority"]),
    (17, ["groupOfUniqueNames"]), (18, ["userSecurityInformation"]),
    (19, ["cRLDistributionPoint"]), (20, ["dmd"]), (21, ["pkiUser"]), (22, ["pkiCA"]),
    (23, ["deltaCRL"])]

def matchingRules : Branch where
  parent := [2, 5, 13]
  entries := [
    (0, ["objectIdentifierMatch"]), (1, ["distinguishedNameMatch"]), (2, ["caseIgnoreMatch"]),
    (3, ["caseIgnoreOrderingMatch"]), (4, ["caseIgnoreSubstringsMatch"]),
    (5, ["caseExactMatch"]), (6, ["caseExactOrderingMatch"]), (7, ["caseExactSubstringsMatch"]),
    (8, ["numericStringMatch"]), (9, ["numericStringOrderingMatch"]),
    (10, ["numericStringSubstringsMatch"]), (11, ["caseIgnoreListMatch"]),
    (12, ["caseIgnoreListSubstringsMatch"]), (13, ["booleanMatch"]), (14, ["integerMatch"]),
    (15, ["integerOrderingMatch"]), (16, ["bitStringMatch"]), (17, ["octetStringMatch"]),
    (18, ["octetStringOrderingMatch"]), (20, ["telephoneNumberMatch"]),
    (21, ["telephoneNumberSubstringsMatch"]), (22, ["presentationAddressMatch"]),
    (23, ["uniqueMemberMatch"]), (24, ["protocolInformationMatch"]),
    (27, ["generalizedTimeMatch"]), (28, ["generalizedTimeOrderingMatch"]),
    (29, ["integerFirstComponentMatch"]), (30, ["objectIdentifierFirstComponentMatch"]),
    (31, ["directoryStringFirstComponentMatch"]), (32, ["wordMatch"]), (33, ["keywordMatch"]),
    (34, ["certificateExactMatch"]), (35, ["certificateMatch"]),
    (36, ["certificatePairExactMatch"]), (37, ["certificatePairMatch"]),
    (38, ["certificateListExactMatch"]), (39, ["certificateListMatch"]),
    (40, ["algorithmIdentifierMatch"])]

def operationalAttributes : Branch where
  parent := [2, 5, 18]
  entries := [
    (1, ["createTimestamp"]), (2, ["modifyTimestamp"]), (3, ["creatorsName"]),
    (4, ["modifiersName"]), (5, ["administrativeRole"]), (6, ["subtreeSpecification"]),
    (7, ["collectiveExclusions"]), (10, ["subschemaSubentry"])]

def schemaAttributes : Branch where
  parent := [2, 5, 21]
  entries := [
    (1, ["dITStructureRules"]), (2, ["dITContentRules"]), (4, ["matchingRules"]),
    (5, ["attributeTypes"]), (6, ["objectClasses"]), (7, ["nameForms"]),
    (8, ["matchingRuleUse"]), (9, ["structuralObjectClass"]), (10, ["governingStructureRule"])]

def certificateExtensions : Branch where
  parent := [2, 5, 29]
  entries := [
    (9, ["id-ce-subjectDirectoryAttributes"]), (14, ["id-ce-subjectKeyIdentifier"]),
    (15, ["id-ce-keyUsage"]), (16, ["id-ce-privateKeyUsagePeriod"]),
    (17, ["id-ce-subjectAltName"]), (18, ["id-ce-issuerAltName"]),
    (19, ["id-ce-basicConstraints"]), (20, ["id-ce-cRLNumber"]), (21, ["id-ce-cRLReasons"]),
    (23, ["id-ce-holdInstructionCode"]), (24, ["id-ce-invalidityDate"]),
    (27, ["id-ce-deltaCRLIndicator"]), (28, ["id-ce-issuingDistributionPoint"]),
    (29, ["id-ce-certificateIssuer"]), (30, ["id-ce-nameConstraints"]),
    (31, ["id-ce-cRLDistributionPoints"]), (32, ["id-ce-certificatePolicies"]),
    (33, ["id-ce-policyMappings"]), (35, ["id-ce-authorityKeyIdentifier"]),
    (36, ["id-ce-policyConstraints"]), (37, ["id-ce-extKeyUsage"]), (46, ["id-ce-freshestCRL"]),
    (54, ["id-ce-inhibitAnyPolicy"])]

def pilotAttributes : Branch where
  parent := [0, 9, 2342, 19200300, 100, 1]
  entries := [
    (1, ["uid", "userId"]), (2, ["textEncodedORAddress"]), (3, ["mail", "RFC822Mailbox"]),
    (4, ["info"]), (5, ["drink", "favouriteDrink"]), (6, ["roomNumber"]), (7, ["photo"]),
    (8, ["userClass"]), (9, ["host"]), (10, ["manager"]), (11, ["documentIdentifier"]),
    (12, ["documentTitle"]), (13, ["documentVersion"]), (14, ["documentAuthor"]),
    (15, ["documentLocation"]), (20, ["homePhone", "homeTelephoneNumber"]), (21, ["secretary"]),
    (22, ["otherMailbox"]), (23, ["lastModifiedTime"]), (24, ["lastModifiedBy"]),
    (25, ["dc", "domainComponent"]), (26, ["aRecord"]), (27, ["mDRecord"]), (28, ["mXRecord"]),
    (29, ["nSRecord"]), (30, ["sOARecord"]), (31, ["cNAMERecord"]), (37, ["associatedDomain"]),
    (38, ["associatedName"]), (39, ["homePostalAddress"]), (40, ["personalTitle"]),
    (41, ["mobile", "mobileTelephoneNumber"]), (42, ["pager", "pagerTelephoneNumber"]),
    (43, ["co", "friendlyCountryName"]), (44, ["uniqueIdentifier"]),
    (45, ["organizationalStatus"]), (46, ["janetMailbox"]), (47, ["mailPreferenceOption"]),
    (48, ["buildingName"]), (49, ["dSAQuality"]), (50, ["singleLevelQuality"]),
    (51, ["subtreeMinimumQuality"]), (52, ["subtreeMaximumQuality"]),
    (53, ["personalSignature"]), (54, ["dITRedirect"]), (55, ["audio"]),
    (56, ["documentPublisher"]), (60, ["jpegPhoto"])]

def requestAttributes : Branch where
  parent := [1, 2, 840, 113549, 1, 9]
  entries := [
    (1, ["email", "emailAddress"]), (2, ["id-unstructuredName"]), (3, ["id-contentType"]),
    (4, ["id-messageDigest"]), (5, ["id-signingTime"]), (6, ["id-countersignature"]),
    (7, ["id-challengePassword"]), (14, ["id-ExtensionReq"])]

/-- The registers whose names are known. Identifiers of others, such as algorithms and purposes of keys,
are written as numbers. -/
def branches : List Branch :=
  [attributeTypes, objectClasses, matchingRules, operationalAttributes,
    schemaAttributes, certificateExtensions, pilotAttributes, requestAttributes]

def entries : List (Oid × List String) :=
  branches.flatMap fun b => b.entries.map fun e => (Oid.ofArcs (b.parent ++ [e.1]), e.2)

def lower (s : String) : List Char := s.toList.map Char.toLower

/-- The identifier of a name, without regard to case. -/
def byName? (name : String) : Option Oid :=
  (entries.find? fun entry => entry.2.any fun known => lower known = lower name).map Prod.fst

def shortName? (id : Oid) : Option String := do
  let entry ← entries.find? fun entry => entry.1 = id
  entry.2.head?

def countryName : Oid := Oid.ofArcs [2, 5, 4, 6]
def serialNumber : Oid := Oid.ofArcs [2, 5, 4, 5]
def domainComponent : Oid := Oid.ofArcs [0, 9, 2342, 19200300, 100, 1, 25]

end Registry

end PkiEnroll.X509

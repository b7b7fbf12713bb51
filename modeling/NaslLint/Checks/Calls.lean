import NaslLint.Check
import NaslLint.Script.Tag

/-!
# Function calls in the code of a script

Functions that are no longer in use, functions that fork and must not be combined, and the
parameters of calls that set preferences or read and write the knowledge base.
-/

namespace NaslLint.Checks

open Pattern

def notClosing : Char → Bool :=
  (· != ')')

/-! ## Functions no longer in use -/

def callOf (name : String) : Pattern :=
  .chain [name, .blanks, "(", .run .longest 0 none notClosing, ")"]

/-- Functions that are no longer in use: how they are described and how they are called. -/
def retiredFunctions : List (String × Pattern) :=
  [("script_summary(), use script_tag(name:\"summary\", value:\"\") instead", callOf "script_summary"),
   ("script_id(), use script_oid() with the full OID instead",
    .chain ["script_id", .blanks, "(", .run .longest 1 none Text.isAsciiDigit, ")"]),
   ("security_note()", callOf "security_note"),
   ("security_warning()", callOf "security_warning"),
   ("security_hole()", callOf "security_hole"),
   ("script_description()", callOf "script_description"),
   ("script_tag(name:\"risk_factor\", value: SEVERITY)",
    .chain ["script_tag", .blanks, "(", .blanks, "name:", .blanks, "\"risk_factor\"",
      .run .longest 0 none notClosing, ")"]),
   ("script_bugtraq_id()", callOf "script_bugtraq_id")]

def deprecatedFunctions : FileCheck where
  name := "check_deprecated_functions"
  title := "CheckDeprecatedFunctions"
  run s _ := s.onText fun t =>
    (retiredFunctions.filter fun (_, p) => p.occursIn t).map fun (description, _) =>
      .error s!"Found a deprecated function call: {description}"

def description : FileCheck where
  name := "check_description"
  title := "CheckDescription"
  run s _ := s.onText fun t =>
    if (ignoringCase "script_description").occursIn t then
      [.error "VT/Include is using deprecated 'script_description'"]
    else []

/-! ## Forking functions -/

/-- Scripts that call several forking functions in different branches. -/
def forkingExempt : List String :=
  ["sw_magento_magmi_detect.nasl", "2014/gb_apache_struts_classloader_vuln.nasl",
   "2009/zabbix_37308.nasl", "pre2008/mailenable_imap_rename_dos.nasl",
   "2013/gb_sap_netweaver_portal_rce_04_13.nasl",
   "gsf/2022/siemens/gb_sicam_a8000_ssa-316850.nasl"]

/-- Scripts that call forking functions without forking. -/
def nonForkingScripts : List String :=
  ["2018/phpunit/gb_phpunit_rce.nasl", "2018/gb_unprotected_web_app_installers.nasl",
   "2018/gb_sensitive_file_disclosures_http.nasl"]

/-- The result of a call used on the right-hand side of an operator. -/
def usedCall (function : Pattern) : Pattern :=
  .chain [.blanks, .one (among "=!"), .blanks,
    .group "call" (.chain [function, .blanks, "(", .run .longest 0 none notClosing, ")", .blanks,
      .one (among ";)")])]

/-- Functions that get a port, and fork if there are several. -/
def portFunction : Pattern :=
  .oneOf
    ["get_app_port",
     .chain ["get_app_port_from_", wordOf ["cpe_prefix", "list"]],
     "sip_get_port_proto",
     .chain [wordOf ["tcp", "udp"], "_get_all_port"],
     .chain [wordOf ["ftp", "http", "telnet", "smtp", "pop3", "imap", "ssh", "tls_ssl", "ldap",
       "snmp", "rsync", "nntp", "unknownservice", "service"], "_get_port"]]

def productFunction : Pattern :=
  .chain ["get_app_", wordOf ["version", "location", "version_from_list",
    "version_and_location_from_list", "version_and_location", "location_and_proto",
    "version_and_proto", "full", "details"]]

def severalCalls (function : Pattern) (t : List Char) : List (List Char) :=
  let calls := ((usedCall function).findAll t).map (·.group "call")
  if calls.length > 1 then calls else []

/-- The remarks on forking functions. Functions for products are only looked at if those for ports
are in order. -/
def forkingRemarks (s : Subject) (t : List Char) : List Remark :=
  match severalCalls portFunction t with
  | [] =>
    ((severalCalls productFunction t).filter fun call =>
      !(s.isAmong nonForkingScripts && Text.contains "nofork:TRUE".toList call)).map fun call =>
        let shown := String.ofList call
        .error (s!"The VT is using the {shown} multiple times or in conjunction with other " ++
          "forking functions. Please use e.g. get_app_version_and_location(), " ++
          "get_app_version_and_location_from_list() or similar functions from host_details.inc.")
  | calls =>
    calls.map fun call =>
      let shown := String.ofList call
      .error (s!"The VT is using the {shown} multiple times or in conjunction with other " ++
        "forking functions. Please either use get_app_port_from_list() from host_details.inc or " ++
        "split your VT into several VTs for each covered protocol.")

def forkingCalls : FileCheck where
  name := "check_forking_nasl_functions"
  title := "CheckForkingNaslFunctions"
  run s _ := s.onScript fun t => if s.isAmong forkingExempt then [] else forkingRemarks s t

/-! ## The knowledge base -/

def serviceLookup : Pattern :=
  .chain ["get_kb_", .group "type" (wordOf ["item", "list"]), .blanks, "(", .blanks,
    .group "quote" Script.quoteChar,
    .group "value" (.chain ["Services/", .run .longest 1 none notClosing]), ")"]

def serviceFinder : Pattern :=
  .chain ["find_service",
    .optional (.oneOf [.run .longest 1 none Text.isAsciiDigit,
      .chain ["_", wordOf ["3digits", "spontaneous", "nmap", "nmap_wrapped"]]]),
    ".nasl"]

/-- Scripts that need to read entries about services themselves. -/
def readsServices (file : Path) : Bool :=
  let name := file.toString
  Text.occursIn "unknown_services.nasl" name || serviceFinder.occursIn name.toList ||
    Text.occursIn "2017/gb_hp_printer_rce_vuln.nasl" name

def serviceKeys : FileCheck where
  name := "check_get_kb_on_services"
  title := "CheckGetKBOnServices"
  run s _ := s.onScript fun t =>
    if readsServices s.file then []
    else
      ((serviceLookup.findAll t).filter fun m =>
        !(["Services/tcp/*", "Services/udp/*"].any fun w =>
          Text.contains w.toList (m.group "value"))).map fun m =>
          let type := String.ofList (m.group "type")
          let value := String.ofList (m.group "value")
          .error (s!"The following get_kb_{type}() call should use a function instead of a direct " ++
            s!"access to the Services/KB key: {value}")

def parameterLabel : Pattern :=
  .chain [wordOf ["name", "value"], optionalChar (· == ' '), ":"]

def kbSetter : Pattern :=
  .chain [wordOf ["set", "replace"], "_kb_item", .blanks, "(",
    .group "parameters" (.run .longest 1 none notClosing), ")", .blanks, ";"]

def kbGetter : Pattern :=
  .chain ["get_kb_", wordOf ["item", "list"], .blanks, "(",
    .group "parameters" (.run .longest 1 none notClosing), ")", .blanks, ";"]

def labelCount (m : Match) : Nat :=
  (parameterLabel.findAll (m.group "parameters")).length

def knowledgeBaseParameters : FileCheck where
  name := "check_set_get_kb_calls"
  title := "CheckWrongSetGetKBCalls"
  run s _ := s.onText fun t =>
    (((kbSetter.findAll t).filter fun m => labelCount m != 2).map fun m =>
      let call := String.ofList m.text
      .error s!"The VT/Include is missing a 'name:' and/or 'value:' parameter: {call}") ++
    (((kbGetter.findAll t).filter fun m => labelCount m != 0).map fun m =>
      let call := String.ofList m.text
      .error s!"The VT/Include is using a non-existent 'name:' and/or 'value:' parameter: {call}")

/-! ## Preferences -/

def preferenceTypes : List String :=
  ["checkbox", "password", "file", "radio", "entry"]

/-- A call that adds a preference, its type being the first parameter. -/
def preferenceCall : Pattern :=
  Script.call "add_preference"
    (.chain ["type", .blanks, ":", .blanks, .group "quote" Script.quoteChar,
      .group "type" (.run .longest 1 none (except "'\"")), .again "quote", .blanks,
      .run .longest 0 none notClosing])

def preferenceType : FileCheck where
  name := "check_script_add_preference_type"
  title := "CheckScriptAddPreferenceType"
  run s _ := s.onScript fun t =>
    (preferenceCall.findAll t).filterMap fun m =>
      let type := String.ofList (m.group "type")
      let call := String.ofList m.text
      if preferenceTypes.contains type ||
          (Text.occursIn "ssh_authorization_init.nasl" s.file.name && type == "sshlogin") then none
      else
        some (.error (s!"VT is using an invalid or misspelled string ({type}) passed to the type " ++
          s!"parameter of script_add_preference in '{call}'"))

end NaslLint.Checks

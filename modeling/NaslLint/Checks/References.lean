import NaslLint.Check
import NaslLint.Script.Tag

/-!
# References to web pages
-/

namespace NaslLint.Checks

/-- Addresses that are allowed although they are not well formed. -/
def allowedUrls : List String :=
  ["https://lists.apache.org/thread.html/e1ef853fc0079cdb55befbd2dac042934e49288b476d5f6a649e5da2" ++
     "@<announce.tomcat.apache.org>",
   "https://m0ze.ru/vulnerability/[2021-05-26]-[WordPress]-[CWE-79]-WP-Reset-WordPress-Plugin" ++
     "-v1.86.txt",
   "http://yehg.net/lab/pr0js/advisories/joomla/core/[joomla_1.0.x~15]_cross_site_scripting",
   "http://yehg.net/lab/pr0js/advisories/eclipse/[eclipse_help_server]_cross_site_scripting",
   "http://core.yehg.net/lab/pr0js/advisories/dll_hijacking/[flash_player]_10.1.x_insecure_dll" ++
     "_hijacking_(dwmapi.dll)",
   "https://lists.apache.org/thread.html/773c93c2d8a6a52bbe97610c2b1c2ad205b970e1b8c04fb5b2fccad6" ++
     "@<general.hadoop.apache.org>",
   "http://mail-archives.apache.org/mod_mbox/perl-advocacy/200904.mbox/<ad28918e0904011458h273a71" ++
     "d4x408f1ed286c9dfbc@mail.gmail.com>",
   "http://yehg.net/lab/pr0js/advisories/[mybb1.6]_cross_site_scripting"]

def referenceUrls : FileCheck where
  name := "check_script_xref_url"
  title := "CheckScriptXrefUrl"
  run s w := s.onScript fun t =>
    (((Script.xref "URL" Script.shortLine).findAll t).filter fun m =>
      let value := m.group "value"
      !allowedUrls.contains (String.ofList value) && !w.isUrl value).map fun m =>
        let call := String.ofList m.text
        .error s!"{call}: Invalid URL value"

end NaslLint.Checks

import Ebftpd.Acl.Path

/-!
# Ebftpd.Acl.Misc

Questions to the configuration about a user (`src/acl/misc.cpp`).
-/

namespace Ebftpd
namespace Acl

open Util Acl.Path

variable (env : Env)

/-- `AllowSiteCmd`: a keyword lists alternatives; one whose ACL is not configured admits nobody. -/
def allowSiteCmd (keyword : Str) : Bool :=
  (split keyword "|".toList false).any fun tok =>
    match env.cfg.commandACLs.lookup tok with
    | some acl => (acl.evaluate env.info).1
    | none => false

def creditCheck (path : Str) : Option Cfg.Creditcheck :=
  env.cfg.creditcheck.find? fun cc =>
    env.cfg.wildcardMatch cc.path path && (cc.acl.evaluate env.info).1

def creditLoss (path : Str) : Option Cfg.Creditloss :=
  env.cfg.creditloss.find? fun cl =>
    env.cfg.wildcardMatch cl.path path && (cl.acl.evaluate env.info).1

end Acl
end Ebftpd

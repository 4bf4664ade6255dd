import Ebftpd.Acl.User

/-!
# Ebftpd.Acl.Group

A group's record (`src/acl/groupdata.hpp`).
-/

namespace Ebftpd
namespace Acl

open Util

/-- `GroupData`, with the defaults of its constructor. -/
structure Group where
  id : GroupID := -1
  name : Str := []
  description : Str := []
  comment : Str := []
  slots : Int := 0
  leechSlots : Int := -2
  allotmentSlots : Int := -2
  maxAllotmentSize : Int := 0
  maxLogins : Int := -1
  deriving DecidableEq

end Acl
end Ebftpd

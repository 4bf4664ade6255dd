import Ebftpd.Util.String

/-!
# Ebftpd.Util.Error

`util::Error` and the exceptions of `util/util/error.hpp`. A `util::Error` is a success or an
`errno`: `Except Errno Unit`. What is thrown through several calls is an `Exn`.
-/

namespace Ebftpd
namespace Util

/-- The `errno` values the code compares against or makes itself; the rest by number. -/
inductive Errno where
  | EACCES
  | EEXIST
  | EINVAL
  | ENOENT
  | ENOSPC
  | ENOTDIR
  | other (errno : Nat)
  deriving DecidableEq

inductive Exn where
  | logicError (what : String)
  | runtimeError (what : String)
  | systemError (errno : Errno)
  deriving DecidableEq

end Util
end Ebftpd

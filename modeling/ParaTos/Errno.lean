/-
  ParaTos/Errno.lean
  ==================
  **Error numbers** (`tos_errors.h` and `MapErrno` in `tos_errors.c`).

  A native call that fails leaves its reason in the global `errno`, and `MapErrno`
  translates what it finds there.  The numbers behind the names differ from host to
  host, so that they are an enumeration here; `other` is every value that `MapErrno`
  has no case for.  Nothing defines `LINUX`, so the cases under it are not compiled.
-/
import Mathlib.Logic.Basic

namespace ParaTos

/-- The values of `errno`. -/
inductive Errno where
  | zero | enoent | esrch | ebadf | echild | edeadlk | enotblk | eisdir | einval | enoexec
  | eilseq | enosys | eacces | eperm | enfile | efbig | eloop | epipe | emlink | enotempty
  | eexist | enametoolong | enotty | erange | edom | eio | enospc | eusers | edquot | estale
  | eremote | enolck | ebadmsg | eidrm | emultihop | enodata | enolink | enomsg | enosr | enostr
  | eoverflow | eproto | etime | e2big | enotsock | edestaddrreq | emsgsize | eprototype
  | enoprotoopt | eprotonosupport | esocktnosupport | eopnotsupp | epfnosupport | eafnosupport
  | eaddrinuse | eaddrnotavail | enetdown | enetunreach | enetreset | econnaborted | econnreset
  | eisconn | enotconn | eshutdown | etimedout | econnrefused | ehostdown | ehostunreach
  | ealready | einprogress | eagain | enobufs | etoomanyrefs
  | other (n : Int32)
deriving DecidableEq, Repr

/-- `MapErrno()` -/
def mapErrno : Errno → Int32
  | .zero => 0
  | .enoent => -33
  | .esrch => -20
  | .ebadf => -37
  | .echild => -21
  | .edeadlk => -22
  | .enotblk => -23
  | .eisdir => -24
  | .einval => -25
  | .enoexec => -66
  | .eilseq => -27
  | .enosys => -32
  | .eacces => -36
  | .eperm => -38
  | .enfile => -50
  | .efbig => -71
  | .eloop => -80
  | .epipe => -81
  | .emlink => -82
  | .enotempty => -83
  | .eexist => -85
  | .enametoolong => -86
  | .enotty => -87
  | .erange => -88
  | .edom => -89
  | .eio => -90
  | .enospc => -91
  | .eusers => -101
  | .edquot => -102
  | .estale => -103
  | .eremote => -104
  | .enolck => -110
  | .ebadmsg => -114
  | .eidrm => -115
  | .emultihop => -116
  | .enodata => -117
  | .enolink => -118
  | .enomsg => -119
  | .enosr => -120
  | .enostr => -121
  | .eoverflow => -122
  | .eproto => -123
  | .etime => -124
  | .e2big => -125
  | .enotsock => -300
  | .edestaddrreq => -301
  | .emsgsize => -302
  | .eprototype => -303
  | .enoprotoopt => -304
  | .eprotonosupport => -305
  | .esocktnosupport => -306
  | .eopnotsupp => -307
  | .epfnosupport => -308
  | .eafnosupport => -309
  | .eaddrinuse => -310
  | .eaddrnotavail => -311
  | .enetdown => -312
  | .enetunreach => -313
  | .enetreset => -314
  | .econnaborted => -315
  | .econnreset => -316
  | .eisconn => -317
  | .enotconn => -318
  | .eshutdown => -319
  | .etimedout => -320
  | .econnrefused => -321
  | .ehostdown => -322
  | .ehostunreach => -323
  | .ealready => -324
  | .einprogress => -325
  | .eagain => -326
  | .enobufs => -327
  | .etoomanyrefs => -328
  | .other _ => -1

/-- The error codes that calls return on their own. -/
def tosEnosys : Int32 := -32
def tosEfilnf : Int32 := -33
def tosEpthnf : Int32 := -34
def tosEihndl : Int32 := -37
def tosEnmfil : Int32 := -49

/-- Only `errno` 0 is mapped to `TOS_E_OK`; everything else is mapped to an error. -/
theorem mapErrno_neg {e : Errno} (h : e ≠ .zero) : mapErrno e < 0 := by
  cases e with
  | zero => exact absurd rfl h
  | other n => exact (by decide : (-1 : Int32) < 0)
  | _ => decide

end ParaTos

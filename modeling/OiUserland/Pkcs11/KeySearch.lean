import OiUserland.Pkcs11.Types

namespace OiUserland.Pkcs11.KeySearch

open Types

/-- The search operation of a session, if one is active: the objects that have not been returned yet. -/
abbrev Search := Option (List Handle)

structure Answers where
  findInit : Rv := ckrOk
  find : Rv := ckrOk
  findFinal : Rv := ckrOk

variable {r : Answers} {template : Template} {token : List Object} {pkey : Handle} {s : Search} {found : List Handle}

end OiUserland.Pkcs11.KeySearch

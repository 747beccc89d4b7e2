import Switchboard.Http.Headers

/-!
# Bearer tokens

- `BearerToken`: a secret that authorises requests. Its description never shows it.
- `BearerToken.authorization`: the value of the header field that carries it.
-/

namespace Switchboard

structure BearerToken where
  secret : String
  deriving DecidableEq

namespace BearerToken

def describe (_ : BearerToken) : String := "BearerToken(<redacted>)"

def authorization (t : BearerToken) : String := "Bearer " ++ t.secret

end BearerToken

end Switchboard

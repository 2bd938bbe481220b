import Mathlib.Init

/-!
This module contains the error numbers that the calls return.
-/

namespace Osproj

def EPERM : Int := 1
def ENOENT : Int := 2
def ENODEV : Int := 19
def ENFILE : Int := 23
def ENOSPC : Int := 28

end Osproj

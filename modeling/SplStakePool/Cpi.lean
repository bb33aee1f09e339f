import SplStakePool.World

/-!
# Calls into other programs

The wrappers of `processor.rs` around cross-program invocations, on the map of all accounts. A call
signed with seeds is made for an authority whose address the caller has checked against those seeds.

The programs themselves are parameters of the runtime, each a function of the accounts that it is passed. Here
it is fixed which accounts these are and where the results are written; what a call that succeeds did to them is
derived from the laws of the runtime.
-/

namespace SplStakePool
open Exec

variable {Key : Type} [DecidableEq Key] (rt : Runtime Key) (sys : Sysvars)

/-- `create_stake_account`, without lamports -/
def createStakeAccount (accounts : Accounts Key) (stakeAccount : AccountInfo Key) :
    Except ProgramError (Accounts Key) := do
  let a ← rt.allocate stakeSpace (accounts stakeAccount.key)
  let a ← rt.assign rt.stakeProgramId a
  return Function.update accounts stakeAccount.key a

def stakeDelegate (accounts : Accounts Key) (stake voteAccount authority : AccountInfo Key) :
    Except ProgramError (Accounts Key) := do
  let a ← rt.delegate sys authority.key (voteAccount.key, accounts voteAccount.key) (accounts stake.key)
  return Function.update accounts stake.key a

def stakeDeactivate (accounts : Accounts Key) (stake authority : AccountInfo Key) :
    Except ProgramError (Accounts Key) := do
  let a ← rt.deactivate sys authority.key (accounts stake.key)
  return Function.update accounts stake.key a

def stakeSplit (accounts : Accounts Key) (stakeAccount authority : AccountInfo Key) (amount : Nat)
    (splitStake : AccountInfo Key) : Except ProgramError (Accounts Key) := do
  let (src, dst) ← rt.split sys authority.key amount (accounts stakeAccount.key) (accounts splitStake.key)
  return Function.update (Function.update accounts stakeAccount.key src) splitStake.key dst

def stakeMerge (accounts : Accounts Key) (sourceAccount authority destinationAccount : AccountInfo Key) :
    Except ProgramError (Accounts Key) := do
  let (dst, src) ← rt.merge sys authority.key
    (destinationAccount.key, accounts destinationAccount.key) (sourceAccount.key, accounts sourceAccount.key)
  return Function.update (Function.update accounts sourceAccount.key src) destinationAccount.key dst

/-- Sets both authorities; the current authority has signed or its address is derived. -/
def stakeAuthorizeSigned (accounts : Accounts Key) (stakeAccount stakeAuthority : AccountInfo Key)
    (newStakeAuthority : Key) : Except ProgramError (Accounts Key) := do
  let a ← rt.authorize sys stakeAuthority.key newStakeAuthority .staker (accounts stakeAccount.key)
  let a ← rt.authorize sys stakeAuthority.key newStakeAuthority .withdrawer a
  return Function.update accounts stakeAccount.key a

/-- Sets both authorities; the current authority must have signed the instruction. -/
def stakeAuthorize (accounts : Accounts Key) (stakeAccount stakeAuthority : AccountInfo Key)
    (newStakeAuthority : Key) : Except ProgramError (Accounts Key) := do
  ensure stakeAuthority.isSigner ProgramError.missingRequiredSignature
  stakeAuthorizeSigned rt sys accounts stakeAccount stakeAuthority newStakeAuthority

def stakeWithdraw (accounts : Accounts Key) (sourceAccount authority destinationAccount : AccountInfo Key)
    (lamports : Nat) : Except ProgramError (Accounts Key) := do
  let src ← rt.withdraw sys authority.key lamports (accounts sourceAccount.key)
  let accounts := Function.update accounts sourceAccount.key src
  return Function.update accounts destinationAccount.key
    ((accounts destinationAccount.key).credit lamports)

def tokenBurn (accounts : Accounts Key) (burnAccount mint authority : AccountInfo Key) (amount : Nat) :
    Except ProgramError (Accounts Key) := do
  ensure authority.isSigner ProgramError.missingRequiredSignature
  let (src, m) ← rt.burn mint.key authority.key amount (accounts burnAccount.key) (accounts mint.key)
  return Function.update (Function.update accounts burnAccount.key src) mint.key m

def tokenMintTo (accounts : Accounts Key) (mint destination authority : AccountInfo Key) (amount : Nat) :
    Except ProgramError (Accounts Key) := do
  let (m, dst) ← rt.mintTo mint.key authority.key amount (accounts mint.key) (accounts destination.key)
  return Function.update (Function.update accounts mint.key m) destination.key dst

def tokenTransfer (accounts : Accounts Key) (source mint destination authority : AccountInfo Key)
    (amount decimals : Nat) : Except ProgramError (Accounts Key) := do
  ensure authority.isSigner ProgramError.missingRequiredSignature
  let (src, dst) ← rt.transferChecked mint.key authority.key amount decimals (accounts source.key)
    (accounts mint.key) (accounts destination.key)
  return Function.update (Function.update accounts source.key src) destination.key dst

def solTransfer (accounts : Accounts Key) (source destination : AccountInfo Key) (amount : Nat) :
    Except ProgramError (Accounts Key) := do
  ensure source.isSigner ProgramError.missingRequiredSignature
  let src ← rt.transfer amount (accounts source.key)
  let accounts := Function.update accounts source.key src
  return Function.update accounts destination.key ((accounts destination.key).credit amount)

end SplStakePool

import Mathlib.Data.List.Range
import Nachos.Office.Basic

/-!
# The programs of the passport office

The programs `test/customer.c`, `senator.c`, `appclerk.c`, `picclerk.c`, `passclerk.c`, `cashier.c` and
`manager.c`. What they print and how often they yield is left out.
-/

namespace Nachos.Office

/-! ### Customers -/

/-- A customer waits outside until the senator has left. -/
def goOutside (id : ℤ) : Program Unit := do
  acquire .outsideLock
  setMV .customerOutside id 1
  wait .senatorCV .outsideLock
  release .outsideLock

def checkSenator (id : ℤ) : Program Unit := do
  if (← getMV .senatorFlag 0) = 1 then
    output
    goOutside id

/-- The line that a customer chooses, and whether it bribes the clerk. -/
def chooseLine (K : Kind) (id : ℤ) : Program (ℤ × Bool) := do
  let mut myLine : ℤ := -1
  let mut lineSize : ℤ := NUM_CUSTOMERS + 1
  let mut hasBribed := false
  for i in List.range (numClerks K) do
    let clerkState ← getMV (.clerkState K) i
    let lineLength ← getMV (.clerkLineCount K) i
    if clerkState = 0 ∧ lineLength < lineSize then
      myLine := i
      lineSize := lineLength
      hasBribed := false
    else if clerkState = 1 ∧ lineLength + 1 < lineSize then
      myLine := i
      lineSize := lineLength + 1
      hasBribed := false
    else if lineLength + 2 < lineSize then
      myLine := i
      lineSize := lineLength + 2
      hasBribed := false
    if clerkState ≠ 2 then
      if 50 ≤ (← getMV .customerMoney id) then
        if (← getMV (.clerkBLineCount K) i) < lineSize then
          myLine := i
          lineSize ← getMV (.clerkBLineCount K) i
          hasBribed := true
  if myLine = -1 then
    for i in List.range (numClerks K) do
      if (← getMV (.clerkLineCount K) i) < lineSize then
        myLine := i
        lineSize ← getMV (.clerkLineCount K) i
  return (myLine, hasBribed)

/-- A customer waits in a line, and goes outside when a senator has come: then it has to choose a line
again. -/
def waitInLine (id myLine : ℤ) (count : Variable) (line : ConditionName) : Program Bool := do
  setMV count myLine ((← getMV count myLine) + 1)
  output
  wait line .lineLock
  setMV count myLine ((← getMV count myLine) - 1)
  if (← getMV .senatorFlag 0) = 1 then
    output
    release .lineLock
    goOutside id
    return true
  else return false

/-- A customer pays a bribe. The element `bribed` of the money of the clerks is changed. -/
def bribe (K : Kind) (id bribed : ℤ) : Program Unit := do
  setMV .customerMoney id ((← getMV .customerMoney id) - 50)
  acquire .moneyLock
  setMV (.clerkMoney K) bribed ((← getMV (.clerkMoney K) bribed) + 50)
  release .moneyLock

/-- A customer gives its number to the clerk. -/
def giveNumber (K : Kind) (id myLine : ℤ) : Program Unit := do
  acquire (.clerkLock K myLine)
  release .lineLock
  setMV (.clerkToFile K) myLine id
  output

/-- The loop of `goToAppClerk` and the like. When a customer has chosen `myLine` and bribes the clerk,
the element `bribed myLine` is changed, and `atCounter myLine` is what it does with the clerk. -/
def goTo (K : Kind) (id : ℤ) (bribed : ℤ → ℤ) (atCounter : ℤ → Program Label) : Program Label := do
  acquire .lineLock
  let (myLine, hasBribed) ← chooseLine K id
  let mut chooseAgain := false
  if hasBribed then
    bribe K id (bribed myLine)
    chooseAgain ← waitInLine id myLine (.clerkBLineCount K) (.bribeLineCV K myLine)
  else
    chooseAgain ← waitInLine id myLine (.clerkLineCount K) (.lineCV K myLine)
  if chooseAgain then return .line K id
  else
    giveNumber K id myLine
    atCounter myLine

def goToAppClerk (id : ℤ) : Program Label :=
  goTo .app id (fun myLine => myLine) (fun myLine => do
    signal (.clerkCV .app myLine) (.clerkLock .app myLine)
    wait (.clerkCV .app myLine) (.clerkLock .app myLine)
    signal (.clerkCV .app myLine) (.clerkLock .app myLine)
    release (.clerkLock .app myLine)
    checkSenator id
    return .line .pic id)

def goToPicClerk (id : ℤ) : Program Label :=
  goTo .pic id (fun myLine => myLine) (fun myLine => return .picture id myLine)

/-- The loop of `goToPicClerk` at the counter, where `random` is always 1. -/
def likePicture (id myLine : ℤ) : Program Label := do
  let random := 1
  let mut picLiked := false
  signal (.clerkCV .pic myLine) (.clerkLock .pic myLine)
  wait (.clerkCV .pic myLine) (.clerkLock .pic myLine)
  if random = 0 then output
  else
    output
    setMV .picClerkPicLiked myLine 1
    picLiked := true
  signal (.clerkCV .pic myLine) (.clerkLock .pic myLine)
  wait (.clerkCV .pic myLine) (.clerkLock .pic myLine)
  if picLiked then
    release (.clerkLock .pic myLine)
    checkSenator id
    return .line .pass id
  else return .picture id myLine

def goToPassClerk (id : ℤ) : Program Label :=
  goTo .pass id (fun myLine => myLine) (fun myLine => do
    signal (.clerkCV .pass myLine) (.clerkLock .pass myLine)
    wait (.clerkCV .pass myLine) (.clerkLock .pass myLine)
    signal (.clerkCV .pass myLine) (.clerkLock .pass myLine)
    release (.clerkLock .pass myLine)
    checkSenator id
    return .line .cashier id)

/-- Here it is the customer's number that says which element a bribe changes. -/
def goToCashier (id : ℤ) : Program Label :=
  goTo .cashier id (fun _ => id) (fun myLine => do
    signal (.clerkCV .cashier myLine) (.clerkLock .cashier myLine)
    output
    setMV .customerMoney id ((← getMV .customerMoney id) - 10)
    wait (.clerkCV .cashier myLine) (.clerkLock .cashier myLine)
    signal (.clerkCV .cashier myLine) (.clerkLock .cashier myLine)
    release (.clerkLock .cashier myLine)
    output
    return .exit)

/-- The number of a process that is started. -/
def nextIndex (lock : LockName) (index : Variable) : Program ℤ := do
  acquire lock
  let id ← getMV index 0
  setMV index 0 (id + 1)
  release lock
  return id

/-- `main` of a customer. -/
def customer : Program Label := do
  let id ← nextIndex .custLock .customerIndex
  checkSenator id
  setMV .customerArrived id 1
  setMV .customerMoney id 60
  return .line .app id

/-! ### Senators -/

/-- A senator comes to the first clerk of a kind, and gives it its number. -/
def senGoTo (K : Kind) (id : ℤ) : Program Unit := do
  acquire .lineLock
  setMV (.clerkSenInLine K) 0 1
  output
  wait (.senatorLineCV K 0) .lineLock
  setMV (.clerkSenInLine K) 0 0
  giveNumber K id 0

def senGoToApp (id : ℤ) : Program Unit := do
  senGoTo .app id
  signal (.clerkCV .app 0) (.clerkLock .app 0)
  wait (.clerkCV .app 0) (.clerkLock .app 0)
  signal (.clerkCV .app 0) (.clerkLock .app 0)
  release (.clerkLock .app 0)

def senGoToPass (id : ℤ) : Program Unit := do
  senGoTo .pass id
  signal (.clerkCV .pass 0) (.clerkLock .pass 0)
  wait (.clerkCV .pass 0) (.clerkLock .pass 0)
  signal (.clerkCV .pass 0) (.clerkLock .pass 0)
  release (.clerkLock .pass 0)

def senGoToCashier (id : ℤ) : Program Unit := do
  senGoTo .cashier id
  signal (.clerkCV .cashier 0) (.clerkLock .cashier 0)
  output
  setMV .senatorMoney id ((← getMV .senatorMoney id) - 10)
  wait (.clerkCV .cashier 0) (.clerkLock .cashier 0)
  signal (.clerkCV .cashier 0) (.clerkLock .cashier 0)
  release (.clerkLock .cashier 0)

/-- `main` of a senator, up to the loop of `senGoToPic`. -/
def senator : Program Label := do
  let id ← nextIndex .senLock .senatorIndex
  acquire .senatorLock
  setMV .senatorFlag 0 1
  acquire .outsideLock
  output
  wait .customerCV .outsideLock
  setMV .senatorArrived id 1
  release .outsideLock
  senGoToApp id
  senGoTo .pic id
  return .senPicture id

/-- What a senator does after the loop of `senGoToPic`. -/
def senatorLeaves (id : ℤ) : Program Label := do
  senGoToPass id
  senGoToCashier id
  acquire .outsideLock
  broadcast .senatorCV .outsideLock
  release .outsideLock
  setMV .senatorFlag 0 0
  release .senatorLock
  output
  return .exit

/-- The loop of `senGoToPic` at the counter, where `random` is always 1. -/
def senLikePicture (id : ℤ) : Program Label := do
  let random := 1
  let mut picLiked := false
  signal (.clerkCV .pic 0) (.clerkLock .pic 0)
  wait (.clerkCV .pic 0) (.clerkLock .pic 0)
  if random = 0 then output
  else
    output
    setMV .picClerkPicLiked 0 1
    picLiked := true
  signal (.clerkCV .pic 0) (.clerkLock .pic 0)
  wait (.clerkCV .pic 0) (.clerkLock .pic 0)
  if picLiked then
    release (.clerkLock .pic 0)
    senatorLeaves id
  else return .senPicture id

/-! ### Clerks -/

/-- A clerk waits for the number of a customer or senator. -/
def receiveNumber (K : Kind) (id : ℤ) : Program ℤ := do
  setMV (.clerkState K) id 1
  acquire (.clerkLock K id)
  release .lineLock
  wait (.clerkCV K id) (.clerkLock K id)
  getMV (.clerkToFile K) id

def appClerkInteract (id : ℤ) (sen : Bool) : Program Label := do
  let custID ← receiveNumber .app id
  output
  if sen then
    setMV .senatorSocial custID 1
    output
  else
    setMV .customerSocial custID 1
    output
  signal (.clerkCV .app id) (.clerkLock .app id)
  wait (.clerkCV .app id) (.clerkLock .app id)
  release (.clerkLock .app id)
  setMV (.clerkState .app) id 0
  return .run .app id

def passClerkInteract (id : ℤ) (sen : Bool) : Program Label := do
  let custID ← receiveNumber .pass id
  output
  if sen then
    setMV .senatorPassport custID 1
    output
  else
    setMV .customerPassport custID 1
    output
  signal (.clerkCV .pass id) (.clerkLock .pass id)
  output
  wait (.clerkCV .pass id) (.clerkLock .pass id)
  release (.clerkLock .pass id)
  setMV (.clerkState .pass) id 0
  return .run .pass id

def cashierInteract (id : ℤ) (sen : Bool) : Program Label := do
  let custID ← receiveNumber .cashier id
  output
  output
  output
  if sen then setMV .senatorPaid custID 1
  else setMV .customerPaid custID 1
  acquire .moneyLock
  setMV (.clerkMoney .cashier) id ((← getMV (.clerkMoney .cashier) id) + 10)
  release .moneyLock
  signal (.clerkCV .cashier id) (.clerkLock .cashier id)
  output
  wait (.clerkCV .cashier id) (.clerkLock .cashier id)
  release (.clerkLock .cashier id)
  setMV (.clerkState .cashier) id 0
  return .run .cashier id

/-- `picClerkInteract`, up to its loop. -/
def picClerkInteract (id : ℤ) (sen : Bool) : Program Label := do
  let custID ← receiveNumber .pic id
  return .photo id custID sen

/-- The loop of `picClerkInteract`, and what comes after it. -/
def takePicture (id custID : ℤ) (sen : Bool) : Program Label := do
  if (← getMV .picClerkPicLiked id) = 0 then
    output
    output
    signal (.clerkCV .pic id) (.clerkLock .pic id)
    wait (.clerkCV .pic id) (.clerkLock .pic id)
    let _ ← getMV .picClerkPicLiked id
    output
    signal (.clerkCV .pic id) (.clerkLock .pic id)
    return .photo id custID sen
  else
    if sen then setMV .senatorPicture custID 1
    else setMV .customerPicture custID 1
    setMV .picClerkPicLiked id 0
    release (.clerkLock .pic id)
    setMV (.clerkState .pic) id 0
    return .run .pic id

/-- A clerk waits until the manager wakes it. -/
def goOnBreak (K : Kind) (id : ℤ) : Program Label := do
  setMV (.clerkState K) id 2
  release .lineLock
  acquire (.clerkLock K id)
  output
  wait (.clerkCV K id) (.clerkLock K id)
  output
  setMV (.clerkState K) id 0
  release (.clerkLock K id)
  return .run K id

/-- The loop of `appClerkRun` and the like, where `interact` is `appClerkInteract` or the like. -/
def clerkRun (K : Kind) (id : ℤ) (interact : Bool → Program Label) : Program Label := do
  if (← getMV .doneFlag 0) = 0 then
    acquire .lineLock
    if (← getMV .senatorFlag 0) = 1 then
      if 0 < (← getMV (.clerkLineCount K) id) then
        broadcast (.lineCV K id) .lineLock
      if 0 < (← getMV (.clerkBLineCount K) id) then
        broadcast (.bribeLineCV K id) .lineLock
      if (← getMV (.clerkSenInLine K) id) = 1 then
        signal (.senatorLineCV K id) .lineLock
        output
        interact true
      else goOnBreak K id
    else if 0 < (← getMV (.clerkBLineCount K) id) then
      signal (.bribeLineCV K id) .lineLock
      output
      interact false
    else if 0 < (← getMV (.clerkLineCount K) id) then
      signal (.lineCV K id) .lineLock
      output
      interact false
    else goOnBreak K id
  else return .exit

def appClerkRun (id : ℤ) : Program Label := clerkRun .app id (appClerkInteract id)

def picClerkRun (id : ℤ) : Program Label := clerkRun .pic id (picClerkInteract id)

def passClerkRun (id : ℤ) : Program Label := clerkRun .pass id (passClerkInteract id)

def cashierRun (id : ℤ) : Program Label := clerkRun .cashier id (cashierInteract id)

/-- `main` of a clerk. -/
def clerk (K : Kind) : Program Label := do
  let id ← nextIndex (.indexLock K) (.clerkIndex K)
  return .run K id

/-! ### The manager -/

/-- The kinds of clerks in the order in which the manager looks at them. -/
def kinds : List Kind := [.app, .pic, .pass, .cashier]

/-- Whether the manager wakes a clerk that is on break. -/
def shouldWake (K : Kind) (i : ℤ) : Program Bool := do
  if (← getMV (.clerkState K) i) = 2 then
    if 2 < (← getMV (.clerkLineCount K) i) then return true
    else if (← getMV (.clerkSenInLine K) i) = 1 then return true
    else if 0 < (← getMV (.clerkLineCount K) i) then
      if (← getMV .senatorFlag 0) = 1 then return true
      else return false
    else return false
  else return false

def wakeClerk (K : Kind) (i : ℤ) : Program Unit := do
  acquire (.clerkLock K i)
  output
  signal (.clerkCV K i) (.clerkLock K i)
  release (.clerkLock K i)

def managerCheckLines : Program Unit := do
  let mut customersGone := true
  for K in kinds do
    for i in List.range (numClerks K) do
      if (← shouldWake K i) then wakeClerk K i
      if (← getMV (.clerkState K) i) = 1 then
        customersGone := false
  for i in List.range NUM_CUSTOMERS do
    if (← getMV .customerArrived i) = 1 then
      if (← getMV .customerOutside i) = 0 then
        customersGone := false
  if customersGone then
    if (← getMV .senatorFlag 0) = 1 then
      acquire .outsideLock
      signal .customerCV .outsideLock
      release .outsideLock

/-- The money of the clerks of a kind is added to a total. -/
def collect (K : Kind) (total : ℤ) : Program ℤ := do
  let mut total := total
  for i in List.range (numClerks K) do
    total := total + (← getMV (.clerkMoney K) i)
    setMV (.clerkMoney K) i 0
  output
  return total

/-- The totals of the manager are passed in and returned. -/
def managerCountMoney (appMoney picMoney passMoney cashMoney : ℤ) : Program (ℤ × ℤ × ℤ × ℤ) := do
  acquire .moneyLock
  let appMoney ← collect .app appMoney
  let picMoney ← collect .pic picMoney
  let passMoney ← collect .pass passMoney
  let cashMoney ← collect .cashier cashMoney
  output
  release .moneyLock
  return (appMoney, picMoney, passMoney, cashMoney)

/-- Whether a customer or senator has not been served by all clerks. -/
def isUnserved (social picture passport paid : Variable) (i : ℤ) : Program Bool := do
  if (← getMV social i) = 0 then return true
  else if (← getMV picture i) = 0 then return true
  else if (← getMV passport i) = 0 then return true
  else if (← getMV paid i) = 0 then return true
  else return false

def managerCheckClose : Program Bool := do
  let mut doneFlag := true
  let mut allHereFlag := true
  let mut breakFlag := true
  for i in List.range NUM_SENATORS do
    if (← getMV .senatorArrived i) = 0 then
      doneFlag := false
      allHereFlag := false
      break
    if (← isUnserved .senatorSocial .senatorPicture .senatorPassport .senatorPaid i) then
      doneFlag := false
      break
  for i in List.range NUM_CUSTOMERS do
    if (← getMV .customerArrived i) = 0 then
      doneFlag := false
      allHereFlag := false
      break
    if (← isUnserved .customerSocial .customerPicture .customerPassport .customerPaid i) then
      doneFlag := false
      break
  if doneFlag then return true
  if allHereFlag then
    for K in kinds do
      for i in List.range (numClerks K) do
        if (← getMV (.clerkState K) i) ≠ 2 then
          breakFlag := false
          break
    if breakFlag then
      for K in kinds do
        for i in List.range (numClerks K) do
          if 0 < (← getMV (.clerkLineCount K) i) then wakeClerk K i
  return false

/-- The office is closed, and all clerks are woken. -/
def close : Program Unit := do
  setMV .doneFlag 0 1
  for K in kinds do
    for i in List.range (numClerks K) do
      acquire (.clerkLock K i)
      signal (.clerkCV K i) (.clerkLock K i)
      release (.clerkLock K i)

/-- The loop of `main` of the manager. -/
def manage (appMoney picMoney passMoney cashMoney : ℤ) : Program Label := do
  for _ in List.range 60 do managerCheckLines
  let (appMoney, picMoney, passMoney, cashMoney) ←
    managerCountMoney appMoney picMoney passMoney cashMoney
  if ← managerCheckClose then
    close
    return .exit
  else return .manage appMoney picMoney passMoney cashMoney

/-! ### All programs -/

/-- What a program does from a label on. -/
def code : Label → Program Label
  | .line .app id => goToAppClerk id
  | .line .pic id => goToPicClerk id
  | .line .pass id => goToPassClerk id
  | .line .cashier id => goToCashier id
  | .picture id myLine => likePicture id myLine
  | .senPicture id => senLikePicture id
  | .run .app id => appClerkRun id
  | .run .pic id => picClerkRun id
  | .run .pass id => passClerkRun id
  | .run .cashier id => cashierRun id
  | .photo id custID sen => takePicture id custID sen
  | .manage appMoney picMoney passMoney cashMoney => manage appMoney picMoney passMoney cashMoney
  | .exit => return .exit

/-- `main` of a process. -/
def main : Process → Program Label
  | .customer _ => customer
  | .senator _ => senator
  | .clerk K _ => clerk K
  | .manager => return .manage 0 0 0 0

end Nachos.Office

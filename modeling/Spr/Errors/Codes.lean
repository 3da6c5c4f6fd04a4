/-! # Result codes

    The codes of `src/include/spr_errno.h` that the modelled functions return. -/

namespace Spr

/-- `SPR_OK` -/
def sprOk : Int := 0

/-- `SPR_FAILED` -/
def sprFailed : Int := -1

/-- `SPR_BUSY` -/
def sprBusy : Int := -2

/-- `SPR_DONE` -/
def sprDone : Int := -3

/-- `SPR_ABORT` -/
def sprAbort : Int := -4

/-- `SPR_DECLINED` -/
def sprDeclined : Int := -5

/-- `SPR_NOT_FOUND` -/
def sprNotFound : Int := -6

/-- `SPR_ERROR_DOMAIN_BASE` -/
def sprErrorDomainBase : Int := 20000

/-- `SPR_ERRSPACE_SIZE` -/
def sprErrspaceSize : Int := 100

/-- `SPR_ERROR_DOMAIN(domain)` -/
def sprErrorDomain (domain : Int) : Int := sprErrorDomainBase + domain * sprErrspaceSize

/-- `SPR_ERR_FILESYS` -/
def sprErrFilesys : Int := sprErrorDomain 1

/-- `SPR_ERR_FILESYS_ABS_PATH` -/
def sprErrFilesysAbsPath : Int := sprErrFilesys + 1

/-- `SPR_ERR_FILESYS_LONG_PATH` -/
def sprErrFilesysLongPath : Int := sprErrFilesys + 2

end Spr

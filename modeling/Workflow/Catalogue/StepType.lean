import Workflow.Catalogue.Basic

/-!
# Step types

The kinds of steps a process consists of.  The numeric order of the types is the
order in which the steps of one process run.
-/

namespace Workflow

inductive StepType where
  | createSubaccount
  | createServicemanagerBindings
  | assignEntitlements
  | createServiceInstance
  | createServiceBinding
  | subscribeApplication
  | createCloudFoundryEnvironment
  | createCloudFoundrySpace
  | addSpaceManagerRole
  | addSpaceDeveloperRole
  | createDimServiceInstance
  | createServiceInstanceBinding
  | getDimDetails
  | createApplication
  | createCompanyIdentity
  | assignCompanyApplication
  | createStatusList
  | sendCallback
  | createTechnicalUser
  | getTechnicalUserData
  | sendTechnicalUserCreationCallback
  | deleteTechnicalUser
  | sendTechnicalUserDeletionCallback
deriving DecidableEq, Repr

namespace StepType

/-- The stored number of a step type: 1 to 18 for the set-up of a tenant, from
100 on for the creation and from 200 on for the deletion of a technical user. -/
def code : StepType → Nat
  | createSubaccount => 1
  | createServicemanagerBindings => 2
  | assignEntitlements => 3
  | createServiceInstance => 4
  | createServiceBinding => 5
  | subscribeApplication => 6
  | createCloudFoundryEnvironment => 7
  | createCloudFoundrySpace => 8
  | addSpaceManagerRole => 9
  | addSpaceDeveloperRole => 10
  | createDimServiceInstance => 11
  | createServiceInstanceBinding => 12
  | getDimDetails => 13
  | createApplication => 14
  | createCompanyIdentity => 15
  | assignCompanyApplication => 16
  | createStatusList => 17
  | sendCallback => 18
  | createTechnicalUser => 100
  | getTechnicalUserData => 101
  | sendTechnicalUserCreationCallback => 102
  | deleteTechnicalUser => 200
  | sendTechnicalUserDeletionCallback => 201

def label : StepType → String
  | createSubaccount => "CREATE_SUBACCOUNT"
  | createServicemanagerBindings => "CREATE_SERVICEMANAGER_BINDINGS"
  | assignEntitlements => "ASSIGN_ENTITLEMENTS"
  | createServiceInstance => "CREATE_SERVICE_INSTANCE"
  | createServiceBinding => "CREATE_SERVICE_BINDING"
  | subscribeApplication => "SUBSCRIBE_APPLICATION"
  | createCloudFoundryEnvironment => "CREATE_CLOUD_FOUNDRY_ENVIRONMENT"
  | createCloudFoundrySpace => "CREATE_CLOUD_FOUNDRY_SPACE"
  | addSpaceManagerRole => "ADD_SPACE_MANAGER_ROLE"
  | addSpaceDeveloperRole => "ADD_SPACE_DEVELOPER_ROLE"
  | createDimServiceInstance => "CREATE_DIM_SERVICE_INSTANCE"
  | createServiceInstanceBinding => "CREATE_SERVICE_INSTANCE_BINDING"
  | getDimDetails => "GET_DIM_DETAILS"
  | createApplication => "CREATE_APPLICATION"
  | createCompanyIdentity => "CREATE_COMPANY_IDENTITY"
  | assignCompanyApplication => "ASSIGN_COMPANY_APPLICATION"
  | createStatusList => "CREATE_STATUS_LIST"
  | sendCallback => "SEND_CALLBACK"
  | createTechnicalUser => "CREATE_TECHNICAL_USER"
  | getTechnicalUserData => "GET_TECHNICAL_USER_DATA"
  | sendTechnicalUserCreationCallback => "SEND_TECHNICAL_USER_CREATION_CALLBACK"
  | deleteTechnicalUser => "DELETE_TECHNICAL_USER"
  | sendTechnicalUserDeletionCallback => "SEND_TECHNICAL_USER_DELETION_CALLBACK"

/-- All step types in ascending order of their numbers. -/
def members : List StepType :=
  [createSubaccount, createServicemanagerBindings, assignEntitlements,
    createServiceInstance, createServiceBinding, subscribeApplication,
    createCloudFoundryEnvironment, createCloudFoundrySpace, addSpaceManagerRole,
    addSpaceDeveloperRole, createDimServiceInstance, createServiceInstanceBinding,
    getDimDetails, createApplication, createCompanyIdentity,
    assignCompanyApplication, createStatusList, sendCallback,
    createTechnicalUser, getTechnicalUserData, sendTechnicalUserCreationCallback,
    deleteTechnicalUser, sendTechnicalUserDeletionCallback]

theorem mem_members (type : StepType) : type ∈ members := by
  cases type <;> decide

instance : Catalogue StepType where
  title := "ProcessStepTypeId"
  members := members
  code := code
  label := label

theorem ofCode?_code (type : StepType) : Catalogue.ofCode? (type.code : Int) = some type := by
  cases type <;> rfl

theorem code_injective : Function.Injective code :=
  Catalogue.code_injective_of_ofCode? ofCode?_code

end StepType

end Workflow
